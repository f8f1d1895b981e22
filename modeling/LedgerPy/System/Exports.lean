import LedgerPy.System.Paging

/-!
# What exported events rebuild

The events that the API lists of an account, or of a transfer, carry their type and their payload.
A client that has collected them page by page can decode them with the registry and replay them,
as `load` does with those of the store. What it rebuilds that way is what the API shows of the
object at some time, and with a last page that is not full at some time since that page was asked
for (`LedgerPy.exports_rebuild_what_is_shown`).
-/

namespace LedgerPy

open OptimisticLog AggregateRoot

/-! ### Reading an export -/

/-- An item of an export, decoded. All events are of schema version 1. -/
def readEvent [Pydantic] (item : Json) : Option DomainEvent := do
  let eventType ← (item.field? "event_type").bind Json.readStr
  let payload ← item.field? "payload"
  (eventRegistry.deserialize eventType 1 payload).toOption

/-- Replay an export into a fresh object. -/
def rebuild [Pydantic] (S : Type) {E : Type} [Stored S E] (items : List Json) :
    Option (AggregateRoot S E) := do
  let history ← items.mapM readEvent
  match (loadFromHistory history).run (factory : AggregateRoot S E) with
  | .ok _ aggregate => some aggregate
  | .error _ _ => none

theorem readEvent_eventResponse [Pydantic] (row : StoredEvent) :
    readEvent (eventResponse row.envelope) = some row.event := by
  change (eventRegistry.deserialize row.event.cls.name 1 row.event.serialize).toOption = _
  rw [deserialize_serialize]
  rfl

theorem mapM_readEvent [Pydantic] (rows : List StoredEvent) :
    (rows.map fun row => eventResponse row.envelope).mapM readEvent =
      some (rows.map StoredEvent.event) := by
  induction rows with
  | nil => rfl
  | cons row rows ih =>
    rw [List.map_cons, List.mapM_cons, readEvent_eventResponse, ih]
    rfl

/-- **The events of an object rebuild it.** -/
theorem rebuild_ofStream [Pydantic] {S E : Type} [Stored S E] {rows : List StoredEvent} {id : Uuid}
    {s : S} (h : Loads S (rows.map StoredEvent.toRecord) id)
    (hs : stateAt S (rows.map StoredEvent.toRecord) id = some s) : ∃ version,
    rebuild S ((ofStream (Stored.key S id) rows).map fun row => eventResponse row.envelope) =
      some ⟨s, version, []⟩ := by
  rw [Loads, hs, stream_map_toRecord] at h
  refine ⟨((ofStream (Stored.key S id) rows).map StoredEvent.event).length, ?_⟩
  rw [rebuild, mapM_readEvent, Option.bind_eq_bind, Option.bind_some, h]
  rfl

/-! ### The objects of an export -/

/-- The objects whose events the API lists. -/
inductive Exported
  | account (accountId : Uuid)
  | transfer (transferId : Uuid)

namespace Exported

variable [Pydantic]

/-- The stream of its events. -/
def key : Exported → StreamKey
  | .account accountId => .account accountId
  | .transfer transferId => .transfer transferId

/-- Its events, page by page. -/
def listing : Exported → Listing
  | .account accountId => .accountEvents accountId
  | .transfer transferId => .transferEvents transferId

/-- The request that shows it. -/
def get : Exported → RouteRequest
  | .account accountId => .getAccount accountId
  | .transfer transferId => .getTransfer transferId

/-- **The response that shows what some items rebuild.** -/
def rebuilt : Exported → List Json → Option StoredResponse
  | .account accountId, items => (rebuild AccountState items).map fun account =>
    ⟨200, accountResponse accountId account⟩
  | .transfer transferId, items => (rebuild TransferState items).map fun transfer =>
    ⟨200, transferResponse transferId transfer⟩

variable {exported : Exported} {rows : List StoredEvent} {items : List Json} {n : ℕ}

theorem listing_items (exported : Exported) (rows : List StoredEvent) :
    exported.listing.items rows =
      (ofStream exported.key rows).map fun row => eventResponse row.envelope := by
  cases exported with
  | account accountId => rfl
  | transfer transferId => rfl

/-- A page that is shown is one of some items. -/
theorem items_ne_nil {page : Page}
    (h : (exported.listing.request page).respondAt rows = ⟨200, .arr items⟩) :
    exported.listing.items rows ≠ [] := by
  rw [listing_items, ne_eq, List.map_eq_nil_iff]
  cases exported with
  | account accountId =>
    rintro hnil
    have hnone : stateAt AccountState (rows.map StoredEvent.toRecord) accountId = none := by
      rw [stateAt_eq_none, stream_map_toRecord]
      exact List.map_eq_nil_iff.mpr hnil
    simp only [listing, Listing.request, ViewRequest.respondAt, hnone] at h
    cases congrArg StoredResponse.statusCode h
  | transfer transferId =>
    rintro hnil
    rw [key] at hnil
    simp only [listing, Listing.request, ViewRequest.respondAt, hnil, if_true] at h
    cases congrArg StoredResponse.statusCode h

/-- **All items of an object rebuild what is shown of it.** -/
theorem rebuilt_items (h : Legal (rows.map StoredEvent.toRecord))
    (hne : exported.listing.items rows ≠ []) : ∃ response,
    exported.rebuilt (exported.listing.items rows) = some response ∧
      (exported.get.perform (rows.map StoredEvent.toRecord)).1 = .ok response := by
  rw [listing_items, ne_eq, List.map_eq_nil_iff] at hne
  have hstream : ¬ stream exported.key (rows.map StoredEvent.toRecord) = [] := by
    rw [stream_map_toRecord]
    exact mt List.map_eq_nil_iff.mp hne
  rw [listing_items]
  cases exported with
  | account accountId =>
    obtain ⟨a, ha⟩ := Option.ne_none_iff_exists'.mp fun hnone =>
      hstream ((stateAt_eq_none (S := AccountState)).mp hnone)
    obtain ⟨version, hrebuild⟩ := rebuild_ofStream (h.loads_account accountId) ha
    refine ⟨⟨200, a.body accountId⟩, ?_, ?_⟩
    · exact congrArg (Option.map _) hrebuild
    · simp only [get, RouteRequest.perform, ha]
  | transfer transferId =>
    obtain ⟨t, ht⟩ := Option.ne_none_iff_exists'.mp fun hnone =>
      hstream ((stateAt_eq_none (S := TransferState)).mp hnone)
    obtain ⟨version, hrebuild⟩ := rebuild_ofStream (h.loads_transfer transferId) ht
    refine ⟨⟨200, t.body transferId⟩, ?_, ?_⟩
    · exact congrArg (Option.map _) hrebuild
    · simp only [get, RouteRequest.perform, ht]

/-- **Some first items are all items at some time**, and that time is as late as they are many. -/
theorem exists_rows (hn : n ≤ rows.length) (h : items <+: exported.listing.items rows)
    (hlow : exported.listing.items (rows.take n) <+: items) :
    ∃ p, p <+: rows ∧ n ≤ p.length ∧ exported.listing.items p = items := by
  obtain ⟨more, rfl⟩ := hlow
  have hsplit : exported.listing.items rows =
      exported.listing.items (rows.take n) ++ exported.listing.items (rows.drop n) := by
    rw [listing_items, listing_items, listing_items, ← List.map_append, ofStream, ofStream,
      ofStream, ← List.filter_append, List.take_append_drop]
  rw [hsplit, List.prefix_append_right_inj, listing_items exported (rows.drop n)] at h
  obtain ⟨evs, ⟨rest, hevs⟩, rfl⟩ := List.prefix_map_iff.mp h
  obtain ⟨p, q, hpq, rfl, -⟩ := List.filter_eq_append_iff.mp hevs.symm
  refine ⟨rows.take n ++ p, ?_, ?_, ?_⟩
  · refine ⟨q, ?_⟩
    rw [List.append_assoc, ← hpq, List.take_append_drop]
  · rw [List.length_append, List.length_take]
    omega
  · rw [listing_items, listing_items, ofStream, ofStream, List.filter_append, List.map_append]

end Exported

/-! ### The application -/

/-- What `GET` answers at some time, with some rows at least. -/
def Application.Showed (s : Application) (exported : Exported) (since : ℕ)
    (response : StoredResponse) : Prop :=
  ∃ p, p <+: s.rows ∧ since ≤ p.length ∧
    (exported.get.perform (p.map StoredEvent.toRecord)).1 = .ok response

/-- First items rebuild what has been shown. -/
theorem Application.Sound.exists_rebuilt [Pydantic] {s : Application} (h : s.Sound)
    {exported : Exported} {items : List Json} {since : ℕ} (hsince : since ≤ s.rows.length)
    (hne : items ≠ []) (hitems : items <+: exported.listing.items s.rows)
    (hlow : exported.listing.items (s.rows.take since) <+: items) :
    ∃ response, exported.rebuilt items = some response ∧ s.Showed exported since response := by
  obtain ⟨p, hp, hle, rfl⟩ := Exported.exists_rows hsince hitems hlow
  obtain ⟨response, hrebuilt, hget⟩ :=
    Exported.rebuilt_items (h.legal.of_isPrefix (hp.map StoredEvent.toRecord)) hne
  exact ⟨response, hrebuilt, p, hp, hle, hget⟩

/-- **Exported events rebuild what is shown.** However requests, workflows and relays interleave
with a client that collects the events of an account or of a transfer page by page: decoded and
replayed, they give an object that shows as the one of the ledger did at some time. And if the last
page is not full, at some time since that page was asked for. -/
theorem exports_rebuild_what_is_shown [Pydantic] (order : HashOrder) (ls : List ApplicationLabel)
    (h : ∀ l ∈ ls, l.Undisturbed) {exported : Exported} {items : List Json}
    (hc : (Application.after order ls).Collects exported.listing items) :
    (items ≠ [] → ∃ response, exported.rebuilt items = some response ∧
      (Application.after order ls).Showed exported 0 response) ∧
    ∀ v ∈ (Application.after order ls).views, ∀ (limit : Limit) (page : List Json),
      v.request = exported.listing.request ⟨limit, items.length⟩ →
      (Application.after order ls).shows v = some ⟨200, .arr page⟩ → page.length < limit →
        ∃ response, exported.rebuilt (items ++ page) = some response ∧
          (Application.after order ls).Showed exported v.since response := by
  have hs : (Application.after order ls).Sound := Application.sound_after h
  have hpages := hc.byOffset hs
  refine ⟨fun hne => ?_, fun v hv limit page hrequest hshown hshort => ?_⟩
  · refine hs.exists_rebuilt (Nat.zero_le _) hne hpages.isPrefix ?_
    rw [List.take_zero, Exported.listing_items]
    exact List.nil_prefix
  · obtain ⟨n, hle, hn, hright⟩ := hs.exists_shown hv hshown
    have hall : exported.listing.items ((Application.after order ls).rows.take n) <+:
        items ++ page := by
      rw [hrequest] at hright
      obtain rfl := Listing.eq_of_respondAt hright
      exact hpages.caughtUp (Listing.items_isPrefix _ (List.take_prefix _ _)) hshort
    have hmore := (hc.page hv hrequest hshown).byOffset hs
    refine hs.exists_rebuilt (hs.views v hv).1 (fun hnil => ?_) hmore.isPrefix
      ((Listing.items_isPrefix _ (List.take_prefix_take_left hle)).trans hall)
    rw [hnil, List.prefix_nil] at hall
    rw [hrequest] at hright
    exact Exported.items_ne_nil hright hall

open Dumps in
/-- What the two pages of the account rebuild has been shown. -/
theorem pagedReads_rebuild_what_is_shown : ∃ items response,
    (Application.after .dedup pagedReads).Collects (Exported.account (.minted 0)).listing items ∧
      (Exported.account (.minted 0)).rebuilt items = some response ∧
      (Application.after .dedup pagedReads).Showed (.account (.minted 0)) 0 response := by
  obtain ⟨items, hcollects, hlen⟩ := pagedReads_collects
  have hc : (Application.after .dedup pagedReads).Collects
      (Exported.account (.minted 0)).listing items := hcollects
  have hne : items ≠ [] := List.ne_nil_of_length_pos (by omega)
  obtain ⟨response, hrebuilt, hshowed⟩ :=
    (exports_rebuild_what_is_shown .dedup pagedReads (by decide) hc).1 hne
  exact ⟨items, response, hc, hrebuilt, hshowed⟩

end LedgerPy

