import ViewState.Hash.Blake3
import ViewState.Proofs.Store.Queue
import ViewState.Proofs.Ticket

/-!
The list of saved views against what a store holds, finds and removes. The rows stand in ascending
order by session and number, so the list is fixed by its rows; and a row is listed exactly if the
entry is held. A purge takes rows out of the list and leaves the others as they stand.
-/
namespace ViewState

open Store (Row)

namespace EntryKey

theorem compare_of_session_lt {k l : EntryKey} (h : compare k.session l.session = .lt) :
    compare k l = .lt := by
  show (compare k.session l.session).then (compare k.sequence l.sequence) = .lt
  rw [h]
  rfl

end EntryKey

namespace Store

def Row.key (row : Row) : EntryKey := ⟨row.session, row.sequence⟩

def Row.ofEntry (h : Hash) (k : EntryKey) (saved : SavedView) : Row :=
  .ofTicket h k.session ⟨saved.view, k.sequence⟩

/-- The row is one of a session, and of a view in it if one is given. -/
def Row.isOf (session : String) (view : Option String) (row : Row) : Bool :=
  view.all (row.view = ·) && row.session = session

theorem Row.isOf_iff {session : String} {view : Option String} {row : Row} :
    row.isOf session view ↔ (∀ v ∈ view, row.view = v) ∧ row.session = session := by
  simp [Row.isOf, Option.all_eq_true]

/-- What the store has under a key, or why that cannot be read. -/
def entry? (s : Store) (k : EntryKey) : Option (Except Failure SavedView) :=
  match s with
  | memory m => ((m.held k.session).get? k.sequence).map .ok
  | table t => (t.views.get? k).map TableStore.decode

def listing (h : Hash) (s : Store) (scope : Option String) : List Row :=
  match s.rows h scope with
  | .ok rows => rows
  | .error _ => []

end Store

namespace MemoryStore

def listing (h : Hash) (m : MemoryStore) : Option String → List Row
  | some session => (m.tickets session).map (.ofTicket h session)
  | none => m.scopes.flatMap fun session => (m.tickets session).map (.ofTicket h session)

def purge (m : MemoryStore) (session : String) : Option String → Nat × MemoryStore
  | some view => m.invalidateView session view
  | none => m.invalidateSession session

variable {h : Hash} {m : MemoryStore} {session : String} {view scope : Option String} {row : Row}

theorem mem_listing_some :
    row ∈ m.listing h (some session) ↔ row.session = session ∧
      ∃ saved, (m.held session).get? row.sequence = some saved ∧
        row = .ofEntry h row.key saved := by
  rw [listing, tickets, List.map_map, List.mem_map]
  constructor
  · rintro ⟨⟨n, saved⟩, he, rfl⟩
    exact ⟨rfl, saved, SortedMap.mem_entries.1 he, rfl⟩
  · rintro ⟨hsession, saved, hheld, hrow⟩
    refine ⟨(row.sequence, saved), SortedMap.mem_entries.2 hheld, ?_⟩
    rw [← hsession]
    exact hrow.symm

theorem Sound.mem_listing (hm : m.Sound) :
    row ∈ m.listing h scope ↔ (∀ session ∈ scope, row.session = session) ∧
      ∃ saved, (m.held row.session).get? row.sequence = some saved ∧
        row = .ofEntry h row.key saved := by
  cases scope with
  | some session =>
    rw [mem_listing_some]
    constructor
    · rintro ⟨rfl, hentry⟩
      exact ⟨fun _ heq => Option.some.inj heq, hentry⟩
    · rintro ⟨hsession, hentry⟩
      obtain rfl := hsession session rfl
      exact ⟨rfl, hentry⟩
  | none =>
    have hnone : m.listing h none = m.scopes.flatMap fun session => m.listing h (some session) :=
      rfl
    rw [hnone, List.mem_flatMap]
    constructor
    · rintro ⟨session, -, hrow⟩
      obtain ⟨rfl, hentry⟩ := mem_listing_some.1 hrow
      exact ⟨nofun, hentry⟩
    · rintro ⟨-, saved, hheld, hrow⟩
      exact ⟨row.session, (hm.mem_scopes _).2 ⟨_, _, hheld⟩,
        mem_listing_some.2 ⟨rfl, saved, hheld, hrow⟩⟩

theorem listing_ascends (h : Hash) (m : MemoryStore) (scope : Option String) :
    (m.listing h scope).Pairwise fun x y => compare x.key y.key = .lt := by
  have hsession (session : String) :
      (m.listing h (some session)).Pairwise fun x y => compare x.key y.key = .lt := by
    refine List.pairwise_map.2 ((m.tickets_ascend session).imp fun hlt => ?_)
    exact (EntryKey.compare_same _ _ _).trans (Std.compare_eq_lt.2 hlt)
  cases scope with
  | some session => exact hsession session
  | none =>
    have hscopes : m.scopes.Pairwise fun a b => compare a b = .lt :=
      List.pairwise_map.2 m.sessions.sorted
    refine List.pairwise_flatMap.2 ⟨fun session _ => hsession session, hscopes.imp ?_⟩
    intro a b hlt x hx y hy
    obtain ⟨rfl, -⟩ := mem_listing_some.1 hx
    obtain ⟨rfl, -⟩ := mem_listing_some.1 hy
    exact EntryKey.compare_of_session_lt hlt

theorem listing_eq {rows : List Row} (hrows : rows.Pairwise fun x y => compare x.key y.key = .lt)
    (hmem : ∀ row, row ∈ rows ↔ row ∈ m.listing h scope) : rows = m.listing h scope :=
  Assoc.eq_of_ascending Row.key hrows (listing_ascends h m scope) hmem

theorem Sound.filter_key (hm : m.Sound) (h : Hash) (k : EntryKey) :
    (m.listing h none).filter (·.key = k) =
      ((m.held k.session).get? k.sequence).toList.map (.ofEntry h k) := by
  apply Assoc.eq_of_ascending Row.key
  · exact (listing_ascends h m none).filter _
  · cases (m.held k.session).get? k.sequence with
    | none => exact .nil
    | some saved => exact List.pairwise_singleton _ _
  intro row
  simp only [List.mem_filter, hm.mem_listing, decide_eq_true_eq, List.mem_map, Option.mem_toList]
  constructor
  · rintro ⟨⟨-, saved, hheld, hrow⟩, rfl⟩
    exact ⟨saved, hheld, hrow.symm⟩
  · rintro ⟨saved, hheld, rfl⟩
    exact ⟨⟨nofun, saved, hheld, rfl⟩, rfl⟩

theorem Sound.filter_session (hm : m.Sound) (h : Hash) (session : String) :
    (m.listing h none).filter (·.session = session) = m.listing h (some session) := by
  apply listing_eq ((listing_ascends h m none).filter _)
  intro row
  simp only [List.mem_filter, hm.mem_listing, decide_eq_true_eq]
  constructor
  · rintro ⟨⟨-, hentry⟩, hsession⟩
    exact ⟨fun _ heq => hsession.trans (Option.some.inj heq), hentry⟩
  · rintro ⟨hsession, hentry⟩
    exact ⟨⟨nofun, hentry⟩, hsession session rfl⟩

/-- A new entry has the greatest number, so it goes to the end. An entry that had this number, since
none was left to give out, makes room for it. -/
theorem Sound.entries_insert_next (hm : m.Sound) (session : String) (saved : SavedView) :
    ((m.held session).insert (Word.next m.sequence) saved).entries =
      (m.queue session).filter (·.1 ≠ Word.next m.sequence) ++
        [(Word.next m.sequence, saved)] := by
  apply Assoc.Sorted.eq_of_mem_iff (SortedMap.sorted _)
  · refine List.pairwise_append.2
      ⟨(m.held session).sorted.filter _, List.pairwise_singleton _ _, ?_⟩
    intro e he e' he'
    obtain ⟨he, hne⟩ := List.mem_filter.1 he
    obtain rfl := List.mem_singleton.1 he'
    have hcounted := hm.counted session e.1 e.2 (SortedMap.mem_entries.1 he)
    have hle := UInt64.le_trans hcounted (Word.le_next m.sequence)
    exact Std.compare_eq_lt.2 (UInt64.lt_of_le_of_ne hle (of_decide_eq_true hne))
  · intro e
    rw [SortedMap.insert, Assoc.mem_insert_iff (m.held session).sorted, List.mem_append,
      List.mem_filter, List.mem_singleton, decide_eq_true_eq, or_comm]
    rfl

theorem Sound.listing_insert (hm : m.Sound) (h : Hash) (session : String) (saved : SavedView)
    (retain : Nat) :
    ∃ older, older.Sublist (m.listing h (some session)) ∧
      (m.insert session saved retain).2.listing h (some session) =
        older ++ [.ofTicket h session (m.insert session saved retain).1] := by
  have hentries := hm.entries_insert_next session saved
  let rest := (m.queue session).filter (·.1 ≠ Word.next m.sequence)
  let dropped := rest.length + 1 - max 1 retain
  have hqueue : (m.insert session saved retain).2.queue session =
      rest.drop dropped ++ [(Word.next m.sequence, saved)] := by
    rw [queue, held_insert, if_pos rfl, kept]
    simp only [SortedMap.drop, SortedMap.size, hentries, List.length_append, List.length_singleton]
    exact List.drop_append_of_le_length (by omega)
  let row (e : UInt64 × SavedView) : Row := .ofTicket h session ⟨e.2.view, e.1⟩
  have hlisting (m : MemoryStore) : m.listing h (some session) = (m.queue session).map row :=
    List.map_map
  refine ⟨(rest.drop dropped).map row, ?_, ?_⟩
  · rw [hlisting]
    exact ((List.drop_sublist _ _).trans List.filter_sublist).map row
  · rw [hlisting, hqueue, List.map_append]
    rfl

theorem get?_held_purge {n : UInt64} {saved : SavedView} {session' : String} :
    ((m.purge session view).2.held session').get? n = some saved ↔
      (m.held session').get? n = some saved ∧
        Row.isOf session view (.ofEntry h ⟨session', n⟩ saved) = false := by
  cases view with
  | some view =>
    rw [purge, get?_held_invalidateView, ← Bool.not_eq_true, Row.isOf_iff]
    refine and_congr_right fun _ => not_congr ⟨?_, fun hof => ?_⟩
    · rintro ⟨rfl, rfl⟩
      exact ⟨fun _ heq => Option.some.inj heq, rfl⟩
    · exact ⟨hof.2.symm, (hof.1 view rfl).symm⟩
  | none =>
    rw [purge, get?_held_invalidateSession, ← Bool.not_eq_true, Row.isOf_iff]
    exact and_congr_right fun _ => not_congr ⟨fun heq => ⟨nofun, heq.symm⟩, fun hof => hof.2.symm⟩

theorem Sound.purge (hm : m.Sound) (session : String) (view : Option String) :
    (m.purge session view).2.Sound := by
  cases view with
  | some view => exact hm.invalidateView session view
  | none => exact hm.invalidateSession session

theorem Sound.listing_purge (hm : m.Sound) (h : Hash) (session : String)
    (view scope : Option String) :
    (m.purge session view).2.listing h scope =
      (m.listing h scope).filter fun row => !row.isOf session view := by
  symm
  apply listing_eq ((listing_ascends h m scope).filter _)
  intro row
  simp only [List.mem_filter, hm.mem_listing, (hm.purge session view).mem_listing, and_assoc,
    Bool.not_eq_true', get?_held_purge (h := h)]
  refine and_congr_right fun _ => ?_
  constructor
  · rintro ⟨⟨saved, hheld, hrow⟩, hkept⟩
    exact ⟨saved, hheld, hrow ▸ hkept, hrow⟩
  · rintro ⟨saved, hheld, hkept, hrow⟩
    exact ⟨⟨saved, hheld, hrow⟩, hrow ▸ hkept⟩

theorem count_purge (m : MemoryStore) (session : String) (view : Option String) :
    (m.purge session view).1 =
      (m.queue session).countP fun e => view.all (e.2.view = ·) := by
  cases view with
  | some view =>
    rw [List.countP_eq_length_filter]
    exact (m.queue_invalidateView session view).2
  | none => exact (List.countP_eq_length.2 fun _ _ => rfl).symm

theorem Sound.countP_listing (hm : m.Sound) (h : Hash) (session : String) (view : Option String) :
    (m.listing h none).countP (Row.isOf session view) = (m.purge session view).1 := by
  have hview : (m.listing h none).countP (Row.isOf session view) =
      ((m.listing h none).filter (·.session = session)).countP fun row => view.all (row.view = ·) :=
    List.countP_filter.symm
  rw [hview, hm.filter_session, count_purge, listing, List.countP_map, tickets, List.countP_map]
  rfl

end MemoryStore

namespace Store

variable {s : Store} {m : MemoryStore}

theorem Represents.rows (hs : s.Represents m) (h : Hash) (scope : Option String) :
    s.rows h scope = .ok (m.listing h scope) := by
  have hsession (session : String) :
      (s.tickets session).map (fun ts => ts.map (Row.ofTicket h session)) =
        .ok (m.listing h (some session)) := by
    rw [hs.tickets]
    rfl
  unfold Store.rows
  dsimp only
  cases scope with
  | some session =>
    rw [mapM_eq_ok fun session _ => hsession session]
    exact congrArg Except.ok (List.append_nil _)
  | none =>
    rw [mapM_eq_ok fun session _ => hsession session, hs.scopes]
    rfl

theorem Represents.listing (hs : s.Represents m) (h : Hash) (scope : Option String) :
    s.listing h scope = m.listing h scope := by
  rw [Store.listing, hs.rows]

theorem Represents.entry? (hs : s.Represents m) (k : EntryKey) :
    s.entry? k = ((m.held k.session).get? k.sequence).map .ok := by
  cases s with
  | memory s =>
    rw [← hs.1]
    rfl
  | table t =>
    have ht : t.Represents m := hs
    have hk : t.views.get? k = _ := ht.holds k.session k.sequence
    rw [Store.entry?, hk, Option.map_map]
    refine Option.map_congr fun saved hsaved => ?_
    have haddressable := ht.addressable k.session k.sequence saved hsaved
    rw [Function.comp_apply, TableStore.decode_toWire, if_pos haddressable]

theorem Represents.purge (hs : s.Represents m) (session : String) (view : Option String) :
    (s.purge session view).1 = .ok (m.purge session view).1 ∧
      (s.purge session view).2.Represents (m.purge session view).2 := by
  cases view with
  | some view => exact hs.invalidateView session view
  | none => exact hs.invalidateSession session

/-- What the list of saved views has to do with the store. -/
structure Listed (h : Hash) (s : Store) : Prop where
  rows_eq : ∀ scope, s.rows h scope = .ok (s.listing h scope)
  /-- The list of all is that of one session after the other, of those that hold anything. -/
  scopes : s.scopes.Pairwise (· < ·) ∧
    (∀ session, session ∈ s.scopes ↔ s.listing h (some session) ≠ []) ∧
    s.listing h none = s.scopes.flatMap fun session => s.listing h (some session)
  /-- All that is held can be read, and has one row. -/
  once : ∀ k, ∃ held : Option SavedView, s.entry? k = held.map .ok ∧
    (s.listing h none).filter (·.key = k) = held.toList.map (.ofEntry h k)
  /-- The order is that of the numbers, which is that of saving. -/
  ascending : ∀ scope, (s.listing h scope).Pairwise fun x y => compare x.key y.key = .lt
  pushed : ∀ session saved retain t, (s.insert session saved retain).1 = .ok t →
    ∃ older, older.Sublist (s.listing h (some session)) ∧
      (s.insert session saved retain).2.listing h (some session) =
        older ++ [.ofTicket h session t]
  /-- The text of a row is that of a ticket for its view, behind which its entry is found. -/
  found : ∀ row ∈ s.listing h none, ∃ posted saved,
    PostedTicket.parse row.ticket = some posted ∧
      posted.forView h row.view = some ⟨row.view, row.sequence⟩ ∧
      s.entry? row.key = some (.ok saved) ∧
      s.get row.session ⟨row.view, row.sequence⟩ = .ok (some saved.state)
  /-- A purge counts the rows that it takes out of the lists. -/
  purged : ∀ session view,
    (s.purge session view).1 = .ok ((s.listing h none).countP (Row.isOf session view)) ∧
      ∀ scope, (s.purge session view).2.rows h scope =
        .ok ((s.listing h scope).filter fun row => !row.isOf session view)

/-- A store that was reached by any calls lists what it holds, finds what it lists and removes what
it says. -/
theorem listed_of_reachable (h : Hash) (hs : s.Reachable) : s.Listed h := by
  obtain ⟨m, hm⟩ := hs.represents
  have hsound := hm.sound
  have hlisting := hm.listing h
  constructor
  case rows_eq => exact fun scope => hlisting scope ▸ hm.rows h scope
  case scopes =>
    rw [hm.scopes, hlisting]
    simp only [hlisting]
    refine ⟨m.scopes_ascend, fun session => ?_, rfl⟩
    rw [hsound.mem_scopes_iff, MemoryStore.listing, MemoryStore.tickets, ne_eq, ne_eq,
      List.map_eq_nil_iff, List.map_eq_nil_iff]
    rfl
  case once =>
    intro k
    exact ⟨(m.held k.session).get? k.sequence, hm.entry? k, hlisting none ▸ hsound.filter_key h k⟩
  case ascending => exact fun scope => hlisting scope ▸ m.listing_ascends h scope
  case pushed =>
    intro session saved retain t ht
    rcases hm.insert_cases session saved retain with ⟨hticket, hafter⟩ | ⟨e, he⟩
    · rw [hticket] at ht
      cases ht
      rw [hlisting, hafter.listing]
      exact hsound.listing_insert h session saved retain
    · rw [he] at ht
      cases ht
  case found =>
    intro row hrow
    rw [hlisting, hsound.mem_listing] at hrow
    obtain ⟨-, saved, hheld, hrow⟩ := hrow
    have hview : row.view = saved.view := congrArg Row.view hrow
    have hticket : row.ticket = Ticket.encode h ⟨saved.view, row.sequence⟩ :=
      congrArg Row.ticket hrow
    refine ⟨Ticket.posted h ⟨saved.view, row.sequence⟩, saved, ?_, ?_, ?_, ?_⟩
    · rw [hticket, Ticket.parse_encode]
    · rw [Ticket.forView_posted, hview, if_pos rfl]
    · exact (hm.entry? row.key).trans (congrArg (Option.map Except.ok) hheld)
    · rw [hm.get, hview, MemoryStore.get_eq_some_iff.2 hheld]
  case purged =>
    intro session view
    obtain ⟨hcount, hafter⟩ := hm.purge session view
    refine ⟨?_, fun scope => ?_⟩
    · rw [hcount, hlisting, hsound.countP_listing]
    · rw [hafter.rows, hlisting, hsound.listing_purge]

/-- One session is emptied by the view that it holds, and the other holds a view twice. -/
theorem listed_of_reachable_emptied :
    let h := Blake3.hash
    let saves := (((memory .empty).perform (.insert "b" ⟨"v", [1]⟩ 2)).2.perform
      (.insert "a" ⟨"v", [2]⟩ 2)).2.perform (.insert "b" ⟨"v", [3]⟩ 2)
    let s := (saves.2.perform (.invalidateView "a" "v")).2
    s.Reachable ∧ s.scopes = ["b"] ∧
      s.listing h none = [.ofTicket h "b" ⟨"v", 1⟩, .ofTicket h "b" ⟨"v", 3⟩] ∧
      (s.purge "b" (some "v")).1 = .ok 2 ∧ (s.purge "b" (some "v")).2.rows h none = .ok [] ∧
      (s.purge "b" (some "w")).1 = .ok 0 ∧
      (s.purge "b" (some "w")).2.rows h none = .ok (s.listing h none) := by
  intro h saves s
  have hs : s.Reachable :=
    .perform (.perform (.perform (.perform (.fresh (.inl rfl)) _) _) _) _
  obtain ⟨-, -, -, -, -, -, hpurged⟩ := listed_of_reachable h hs
  obtain ⟨hcount, hrows⟩ := hpurged "b" (some "v")
  obtain ⟨hcount', hrows'⟩ := hpurged "b" (some "w")
  have hlisting : s.listing h none = [.ofTicket h "b" ⟨"v", 1⟩, .ofTicket h "b" ⟨"v", 3⟩] := rfl
  refine ⟨hs, rfl, hlisting, ?_, ?_, ?_, ?_⟩
  · rw [hcount, hlisting]
    rfl
  · rw [hrows, hlisting]
    rfl
  · rw [hcount', hlisting]
    rfl
  · rw [hrows', hlisting]
    rfl

end Store

end ViewState
