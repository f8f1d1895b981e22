import LedgerPy.OptimisticLog.Paging
import LedgerPy.System.Application

/-!
# Pages of the API

A client that reads the global feed page by page, each time beyond the last event it has, and one
that reads the events or the statement of an account by offset. Other requests, workflows and
relays go on in between, so every page is one of another log. The pages put together are still
what comes first, each event once (`LedgerPy.pages_of_the_feed`,
`LedgerPy.pages_of_a_listing`).
-/

namespace LedgerPy

open OptimisticLog

/-! ### Responses -/

/-- The response to a request for a view, if there is one. -/
def Application.shows (s : Application) (v : ViewHandler) : Option StoredResponse :=
  v.reply s.reads.callers

/-- A list that has been shown is the one at some number of rows. -/
theorem Application.Sound.exists_shown [Pydantic] {s : Application} (h : s.Sound) {v : ViewHandler}
    (hv : v ∈ s.views) {items : List Json} (hshown : s.shows v = some ⟨200, .arr items⟩) :
    ∃ n, v.since ≤ n ∧ n ≤ s.rows.length ∧
      v.request.respondAt (s.rows.take n) = ⟨200, .arr items⟩ := by
  obtain ⟨hsince, hserved⟩ := h.views v hv
  obtain ⟨n, hle, hn, hright | herror⟩ := hserved.reply h.legal hsince
    (h.reads_log ▸ h.reads.callers) hshown
  · exact ⟨n, hle, hn, hright.symm⟩
  · cases congrArg StoredResponse.statusCode herror

/-! ### The feed -/

/-- An event, as the feed shows it. -/
def StoredEvent.feedItem (row : StoredEvent) : Json := globalEventResponse row.envelope

/-- The cursor for the next page: the position of the last event of a page. -/
def nextPosition (cursor : ℕ) (items : List Json) : ℕ :=
  ((items.getLast?.bind fun item => (item.field? "global_position").bind Json.readInt).map
    Int.toNat).getD cursor

theorem nextPosition_map (cursor : ℕ) (rows : List StoredEvent) :
    nextPosition cursor (rows.map StoredEvent.feedItem) =
      moved StoredEvent.globalPosition cursor rows := by
  rw [nextPosition, moved, List.getLast?_map]
  rcases rows.getLast? with _ | row
  · rfl
  · rfl

/-- **What a client has collected from the feed**, and its cursor. -/
inductive Application.CollectsFeed (s : Application) (start : ℕ) : List Json → ℕ → Prop
  | start : CollectsFeed s start [] start
  | page {items page : List Json} {cursor : ℕ} {v : ViewHandler} {limit : Limit}
      (h : CollectsFeed s start items cursor) (hv : v ∈ s.views)
      (hrequest : v.request = .events cursor limit) (hshown : s.shows v = some ⟨200, .arr page⟩) :
      CollectsFeed s start (items ++ page) (nextPosition cursor page)

/-- A page of the feed is a batch of the rows at some time. -/
theorem Application.Sound.exists_batch [Pydantic] {s : Application} (h : s.Sound) {v : ViewHandler}
    (hv : v ∈ s.views) {cursor : ℕ} {limit : Limit} (hrequest : v.request = .events cursor limit)
    {page : List Json} (hshown : s.shows v = some ⟨200, .arr page⟩) :
    ∃ seen, s.rows.take v.since <+: seen ∧ seen <+: s.rows ∧
      page = (batch StoredEvent.globalPosition cursor limit seen).map StoredEvent.feedItem := by
  obtain ⟨n, hle, hn, hright⟩ := h.exists_shown hv hshown
  refine ⟨s.rows.take n, List.take_prefix_take_left hle, List.take_prefix _ _, ?_⟩
  rw [hrequest] at hright
  exact (Json.arr.inj (congrArg StoredResponse.body hright)).symm

theorem Application.CollectsFeed.byCursor [Pydantic] {s : Application} (h : s.Sound)
    {start cursor : ℕ} {items : List Json} (hc : s.CollectsFeed start items cursor) :
    ∃ p, ByCursor StoredEvent.globalPosition s.rows start p cursor ∧
      items = p.map StoredEvent.feedItem := by
  induction hc with
  | start => exact ⟨[], .start, rfl⟩
  | @page items page cursor v limit hc hv hrequest hshown ih =>
    obtain ⟨p, hp, rfl⟩ := ih
    obtain ⟨seen, -, hseen, rfl⟩ := h.exists_batch hv hrequest hshown
    refine ⟨_, ?_, (List.map_append).symm⟩
    rw [nextPosition_map]
    exact hp.page hseen limit

/-- **Pages of the feed.** However requests, workflows and relays interleave with a client that
reads the feed page by page, from a position on: what it has collected are the events that come
first beyond that position, each once and in order. And a page that is not full has caught up with
all that there was when it was asked for. -/
theorem pages_of_the_feed [Pydantic] (order : HashOrder) (ls : List ApplicationLabel)
    (h : ∀ l ∈ ls, l.Undisturbed) {start cursor : ℕ} {items : List Json}
    (hc : (Application.after order ls).CollectsFeed start items cursor) :
    ∃ p, p <+: beyond StoredEvent.globalPosition start (Application.after order ls).rows ∧
      items = p.map StoredEvent.feedItem ∧
      ∀ v ∈ (Application.after order ls).views, ∀ (limit : Limit) (page : List Json),
        v.request = .events cursor limit →
        (Application.after order ls).shows v = some ⟨200, .arr page⟩ → page.length < limit →
          ∀ row ∈ (Application.after order ls).rows.take v.since,
            start < row.globalPosition → row.feedItem ∈ items ++ page := by
  have hs : (Application.after order ls).Sound := Application.sound_after h
  obtain ⟨p, hp, rfl⟩ := hc.byCursor hs
  refine ⟨p, (hp.isPrefix hs.gapSafe).1, rfl,
    fun v hv limit page hrequest hshown hshort row hrow hlt => ?_⟩
  obtain ⟨seen, hsince, hseen, rfl⟩ := hs.exists_batch hv hrequest hshown
  rw [List.length_map] at hshort
  rw [← List.map_append]
  exact List.mem_map_of_mem (hp.caughtUp hs.gapSafe hseen hshort (hsince.subset hrow) hlt)

/-- An account is opened, the first page of the feed and of the events of the account are read, of
one event each, thirty euros are deposited, with three positions skipped, and the second pages are
read. -/
def pagedReads : List ApplicationLabel :=
  [.service (.arrive (.openAccount (.minted 0) eur none)) 0, .service (.next 0) 0,
    .view (.events 0 ⟨1, by decide⟩), .next 0,
    .view (.accountEvents (.minted 0) ⟨⟨1, by decide⟩, 0⟩), .next 1, .next 1,
    .service (.arrive (.deposit (.minted 0) ⟨30, eur, by decide⟩ none)) 0, .service (.next 1) 0,
    .service (.next 1) 3, .view (.events 1 ⟨1, by decide⟩), .next 2,
    .view (.accountEvents (.minted 0) ⟨⟨1, by decide⟩, 1⟩), .next 3, .next 3]

open Dumps in
/-- The two pages of the feed are the two events. -/
theorem pagedReads_of_the_feed : ∃ items p,
    (Application.after .dedup pagedReads).CollectsFeed 0 items 5 ∧ items.length = 2 ∧
      p <+: beyond StoredEvent.globalPosition 0 (Application.after .dedup pagedReads).rows ∧
      items = p.map StoredEvent.feedItem := by
  have hstart : (Application.after .dedup pagedReads).CollectsFeed 0 [] 0 := .start
  have hfirst := hstart.page (List.mem_of_getElem? (i := 0) rfl) rfl rfl
  have hc := hfirst.page (List.mem_of_getElem? (i := 2) rfl) rfl rfl
  obtain ⟨p, hp, hitems, -⟩ := pages_of_the_feed .dedup pagedReads (by decide) hc
  exact ⟨_, p, hc, rfl, hp, hitems⟩

/-! ### Listings -/

/-- The views that are read by offset. -/
inductive Listing
  | statement (accountId : Uuid)
  | accountEvents (accountId : Uuid)
  | transferEvents (transferId : Uuid)

/-- The request for a page. -/
def Listing.request : Listing → Page → ViewRequest
  | .statement accountId, page => .statement accountId page
  | .accountEvents accountId, page => .accountEvents accountId page
  | .transferEvents transferId, page => .transferEvents transferId page

/-- All items of a view, when some rows have been stored. -/
def Listing.items [Pydantic] (rows : List StoredEvent) : Listing → List Json
  | .statement accountId =>
    (linesOf accountId (rows.map StoredEvent.envelope)).map statementLineResponse
  | .accountEvents accountId =>
    (ofStream (.account accountId) rows).map fun row => eventResponse row.envelope
  | .transferEvents transferId =>
    (ofStream (.transfer transferId) rows).map fun row => eventResponse row.envelope

/-- The items of a listing are read off the rows in their order, so more rows add items at the end
only. -/
theorem Listing.items_isPrefix [Pydantic] (listing : Listing) {rows rows' : List StoredEvent}
    (h : rows <+: rows') : listing.items rows <+: listing.items rows' := by
  cases listing with
  | statement accountId => exact ((h.map _).filterMap _).map _
  | accountEvents accountId => exact (h.filter _).map _
  | transferEvents transferId => exact (h.filter _).map _

/-- It is the same to cut a page out of the items and to cut it out of what they are made from. -/
theorem Page.of_map {α β : Type} (page : Page) (f : α → β) (items : List α) :
    (page.of items).map f = page.of (items.map f) := by
  rw [Page.of, Page.of, List.map_take, List.map_drop]

/-- **A page of a view** is one of its items. -/
theorem Listing.eq_of_respondAt [Pydantic] {listing : Listing} {page : Page}
    {rows : List StoredEvent} {items : List Json}
    (h : (listing.request page).respondAt rows = ⟨200, .arr items⟩) :
    items = page.of (listing.items rows) := by
  have hbody : ∀ {items' : List Json}, (⟨200, .arr items'⟩ : StoredResponse) = ⟨200, .arr items⟩ →
      items = items' := fun h => (Json.arr.inj (congrArg StoredResponse.body h)).symm
  cases listing with
  | statement accountId =>
    rw [request, ViewRequest.respondAt] at h
    split at h
    · cases congrArg StoredResponse.statusCode h
    · rw [hbody h, Page.of_map]
      rfl
  | accountEvents accountId =>
    rw [request, ViewRequest.respondAt] at h
    split at h
    · cases congrArg StoredResponse.statusCode h
    · rw [hbody h, Page.of_map]
      rfl
  | transferEvents transferId =>
    rw [request, ViewRequest.respondAt] at h
    split_ifs at h
    · cases congrArg StoredResponse.statusCode h
    · rw [hbody h, Page.of_map]
      rfl

/-- **What a client has collected of a view**, page by page. -/
inductive Application.Collects (s : Application) (listing : Listing) : List Json → Prop
  | start : Collects s listing []
  | page {items page : List Json} {v : ViewHandler} {limit : Limit} (h : Collects s listing items)
      (hv : v ∈ s.views) (hrequest : v.request = listing.request ⟨limit, items.length⟩)
      (hshown : s.shows v = some ⟨200, .arr page⟩) : Collects s listing (items ++ page)

/-- A page is one of the items at some time. -/
theorem Application.Sound.exists_page [Pydantic] {s : Application} (h : s.Sound) {v : ViewHandler}
    (hv : v ∈ s.views) {listing : Listing} {page : Page}
    (hrequest : v.request = listing.request page) {items : List Json}
    (hshown : s.shows v = some ⟨200, .arr items⟩) :
    ∃ seen, listing.items (s.rows.take v.since) <+: seen ∧ seen <+: listing.items s.rows ∧
      items = (seen.drop page.offset).take page.limit := by
  obtain ⟨n, hle, hn, hright⟩ := h.exists_shown hv hshown
  refine ⟨listing.items (s.rows.take n), listing.items_isPrefix (List.take_prefix_take_left hle),
    listing.items_isPrefix (List.take_prefix _ _), ?_⟩
  rw [hrequest] at hright
  exact Listing.eq_of_respondAt hright

theorem Application.Collects.byOffset [Pydantic] {s : Application} (h : s.Sound) {listing : Listing}
    {items : List Json} (hc : s.Collects listing items) :
    ByOffset (listing.items s.rows) items := by
  induction hc with
  | start => exact .start
  | page hc hv hrequest hshown ih =>
    obtain ⟨seen, -, hseen, rfl⟩ := h.exists_page hv hrequest hshown
    exact ih.page hseen _

/-- **Pages of a listing.** However requests, workflows and relays interleave with a client that
reads the events or the statement of an account, or the events of a transfer, by offset: what it
has collected is what comes first, each item once and in order. And a page that is not full has
caught up with all that there was when it was asked for. -/
theorem pages_of_a_listing [Pydantic] (order : HashOrder) (ls : List ApplicationLabel)
    (h : ∀ l ∈ ls, l.Undisturbed) {listing : Listing} {items : List Json}
    (hc : (Application.after order ls).Collects listing items) :
    items <+: listing.items (Application.after order ls).rows ∧
    ∀ v ∈ (Application.after order ls).views, ∀ (limit : Limit) (page : List Json),
      v.request = listing.request ⟨limit, items.length⟩ →
      (Application.after order ls).shows v = some ⟨200, .arr page⟩ → page.length < limit →
        listing.items ((Application.after order ls).rows.take v.since) <+: items ++ page := by
  have hs : (Application.after order ls).Sound := Application.sound_after h
  have hpages := hc.byOffset hs
  refine ⟨hpages.isPrefix, fun v hv limit page hrequest hshown hshort => ?_⟩
  obtain ⟨seen, hsince, hseen, rfl⟩ := hs.exists_page hv hrequest hshown
  exact hsince.trans (hpages.caughtUp hseen hshort)

open Dumps in
/-- The two pages of the events of the account. -/
theorem pagedReads_collects : ∃ items,
    (Application.after .dedup pagedReads).Collects (.accountEvents (.minted 0)) items ∧
      items.length = 2 := by
  have hstart : (Application.after .dedup pagedReads).Collects (.accountEvents (.minted 0)) [] :=
    .start
  have hfirst := hstart.page (List.mem_of_getElem? (i := 1) rfl) rfl rfl
  exact ⟨_, hfirst.page (List.mem_of_getElem? (i := 3) rfl) rfl rfl, rfl⟩

open Dumps in
/-- The two pages of the account are its two events. -/
theorem pagedReads_of_the_account : ∃ items,
    (Application.after .dedup pagedReads).Collects (.accountEvents (.minted 0)) items ∧
      items.length = 2 ∧ items <+: (Listing.accountEvents (.minted 0)).items
        (Application.after .dedup pagedReads).rows := by
  obtain ⟨items, hc, hlen⟩ := pagedReads_collects
  exact ⟨items, hc, hlen, (pages_of_a_listing .dedup pagedReads (by decide) hc).1⟩

end LedgerPy
