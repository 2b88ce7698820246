import Mathlib.Data.List.Rotate
import Mathlib.Data.Set.Function
import Netos.Tables.ContentBfTable

/-!
# Which neighbor is selected

The calls of `update_neighbor` and `select_neighbor` on one table, and what a selection returns in
terms of the calls before it. The table keeps one summary for the text of an address, so it is
assumed that the senders' addresses differ in their texts; `addrToString_inj` says that IPv4
addresses do. `Reflects` relates the table to the latest summary of every sender: an entry is the
latest summary of its address, and a latest summary that has no entry is too old, as only a
selection deletes, and deletes what is older than the ttl.

A loop over the table stops at the first match, in an order that is not specified. `selection_exact`
describes the results of all orders: they depend on the latest summaries only.
-/

namespace Netos.ContentBloomTable

open CString Cxx

/-- A call, with the reading of the clock. -/
inductive Call where
  /-- `update_neighbor`. -/
  | update (now : ℤ) (addr : SockaddrIn) (filter : BloomFilter)
  /-- `select_neighbor`, with the order in which it visits the summaries. -/
  | select (it : Iteration) (now : ℤ) (key : Bytes)

/-- The clock of a call. -/
def Call.now : Call → ℤ
  | .update now _ _ => now
  | .select _ now _ => now

/-- The table after a call. -/
def apply (t : ContentBloomTable) : Call → ContentBloomTable
  | .update now addr filter => t.updateNeighbor now addr filter
  | .select it now key => (t.selectNeighbor it now key).1

/-- The table after calls. -/
def after (t : ContentBloomTable) (calls : List Call) : ContentBloomTable := calls.foldl apply t

/-- A summary as it arrived. -/
structure Summary where
  /-- The clock. -/
  time : ℤ
  /-- The filter. -/
  filter : BloomFilter

/-- The latest summary of an address after one call more. -/
def Call.latest (addr : SockaddrIn) (last : Option Summary) : Call → Option Summary
  | .update now from_ filter => if from_ = addr then some ⟨now, filter⟩ else last
  | .select _ _ _ => last

/-- The latest summary that calls received from an address. -/
def latest (calls : List Call) (addr : SockaddrIn) : Option Summary :=
  calls.foldl (Call.latest addr) none

/-- An address whose latest summary is not older than the ttl and matches a key. -/
def Matching (ttl : ℤ) (calls : List Call) (now : ℤ) (key : Bytes) (addr : SockaddrIn) : Prop :=
  ∃ summary, latest calls addr = some summary ∧ now - summary.time ≤ milliseconds ttl ∧
    summary.filter.maybeContains key = true

/-- Every summary comes from one of these senders. -/
def SentBy (senders : Set SockaddrIn) (calls : List Call) : Prop :=
  ∀ now addr filter, Call.update now addr filter ∈ calls → addr ∈ senders

/-- The table, seen from a time on, reflects the latest summaries. -/
structure Reflects (ttl : ℤ) (calls : List Call) (now : ℤ) (t : ContentBloomTable) : Prop where
  /-- The ttl stays. -/
  ttl_eq : t.ttl = ttl
  /-- An entry is the latest summary of its address, under the text of that. -/
  found : ∀ k e, t.neighbors.lookup k = some e →
    k = addrToString e.addr ∧ latest calls e.addr = some ⟨e.updated, e.filter⟩
  /-- A latest summary that is not too old is an entry. -/
  kept : ∀ addr summary, latest calls addr = some summary →
    now - summary.time ≤ milliseconds ttl →
      t.neighbors.lookup (addrToString addr) = some ⟨summary.filter, summary.time, addr⟩

/-! ## The calls -/

/-- One call more. -/
theorem after_concat (t : ContentBloomTable) (calls : List Call) (call : Call) :
    t.after (calls ++ [call]) = (t.after calls).apply call := by
  rw [after, List.foldl_append, List.foldl_cons, List.foldl_nil, after]

/-- One call more. -/
theorem latest_concat (calls : List Call) (call : Call) (addr : SockaddrIn) :
    latest (calls ++ [call]) addr = call.latest addr (latest calls addr) := by
  rw [latest, List.foldl_append, List.foldl_cons, List.foldl_nil, latest]

/-- A summary was received from a sender. -/
theorem SentBy.of_latest {senders : Set SockaddrIn} {calls : List Call}
    (h : SentBy senders calls) {addr : SockaddrIn} {summary : Summary}
    (hlatest : latest calls addr = some summary) : addr ∈ senders := by
  induction calls using List.reverseRecOn with
  | nil => exact absurd hlatest.symm (Option.some_ne_none summary)
  | append_singleton calls call ih =>
    have hbefore : SentBy senders calls := fun now addr filter hmem =>
      h now addr filter (List.mem_append_left _ hmem)
    rw [latest_concat] at hlatest
    cases call with
    | select it now key => exact ih hbefore hlatest
    | update now from_ filter =>
      dsimp only [Call.latest] at hlatest
      split_ifs at hlatest with hfrom
      · rw [← hfrom]
        exact h now from_ filter (List.mem_append_right _ List.mem_cons_self)
      · exact ih hbefore hlatest

variable {ttl : ℤ} {calls : List Call} {now : ℤ} {t : ContentBloomTable}

/-- Later, the table still reflects the latest summaries. -/
theorem Reflects.mono (h : Reflects ttl calls now t) {now' : ℤ} (hle : now ≤ now') :
    Reflects ttl calls now' t :=
  ⟨h.ttl_eq, h.found, fun addr summary hlatest hfresh =>
    h.kept addr summary hlatest (by omega)⟩

/-- A summary replaces the one of its sender. -/
theorem Reflects.update (h : Reflects ttl calls now t) {senders : Set SockaddrIn}
    (hinj : Set.InjOn addrToString senders) (hsent : SentBy senders calls) {addr : SockaddrIn}
    (haddr : addr ∈ senders) (filter : BloomFilter) :
    Reflects ttl (calls ++ [.update now addr filter]) now (t.updateNeighbor now addr filter) := by
  have hself : latest (calls ++ [.update now addr filter]) addr = some ⟨now, filter⟩ := by
    rw [latest_concat]
    exact if_pos rfl
  have hother : ∀ a, a ≠ addr → latest (calls ++ [.update now addr filter]) a = latest calls a :=
    fun a ha => by
      rw [latest_concat]
      exact if_neg (Ne.symm ha)
  refine ⟨h.ttl_eq, fun k e hfound => ?_, fun a summary hlatest hfresh => ?_⟩
  · by_cases hk : k = addrToString addr
    · subst hk
      obtain rfl := Option.some.inj ((AList.lookup_insert _).symm.trans hfound)
      exact ⟨rfl, hself⟩
    · obtain ⟨hname, hlatest⟩ := h.found k e ((AList.lookup_insert_ne hk).symm.trans hfound)
      have hne : e.addr ≠ addr := fun heq => hk (by rw [hname, heq])
      exact ⟨hname, by rw [hother _ hne, hlatest]⟩
  · by_cases ha : a = addr
    · subst ha
      obtain rfl := Option.some.inj (hself.symm.trans hlatest)
      exact AList.lookup_insert _
    · rw [hother a ha] at hlatest
      -- Another sender has another text.
      have hname : addrToString a ≠ addrToString addr := fun heq =>
        ha (hinj (hsent.of_latest hlatest) haddr heq)
      exact (AList.lookup_insert_ne hname).trans (h.kept a summary hlatest hfresh)

/-- The old summaries go. -/
theorem Reflects.prune (h : Reflects ttl calls now t) (httl : 0 < ttl) :
    Reflects ttl calls now (t.pruneLocked now) ∧
      ∀ k e, (t.pruneLocked now).neighbors.lookup k = some e →
        now - e.updated ≤ milliseconds ttl := by
  obtain ⟨rfl, hfound, hkept⟩ := h
  have hpruned : t.pruneLocked now = { t with
      neighbors := Cxx.filter (fun _ e => !decide (now - e.updated > milliseconds t.ttl))
        t.neighbors } := if_neg (not_le.mpr httl)
  have hlookup : ∀ k e, (t.pruneLocked now).neighbors.lookup k = some e ↔
      t.neighbors.lookup k = some e ∧ now - e.updated ≤ milliseconds t.ttl := fun k e => by
    rw [hpruned]
    dsimp only
    rw [lookup_filter, Option.filter_eq_some_iff, Bool.not_eq_true', decide_eq_false_iff_not,
      not_lt]
  refine ⟨⟨by rw [hpruned], fun k e hmem => hfound k e ((hlookup k e).mp hmem).1,
    fun addr summary hlatest hfresh => ?_⟩, fun k e hmem => ((hlookup k e).mp hmem).2⟩
  exact (hlookup _ _).mpr ⟨hkept addr summary hlatest hfresh, hfresh⟩

/-- Every call keeps the table right. -/
theorem reflects_after (httl : 0 < ttl) (bit_count hash_count : ℕ) {senders : Set SockaddrIn}
    (hinj : Set.InjOn addrToString senders) {calls : List Call} (hsent : SentBy senders calls)
    (hsorted : (calls.map Call.now).Pairwise (· ≤ ·)) {now : ℤ}
    (hnow : ∀ call ∈ calls, call.now ≤ now) :
    Reflects ttl calls now ((construct bit_count hash_count ttl).after calls) := by
  induction calls using List.reverseRecOn generalizing now with
  | nil =>
    exact ⟨rfl, fun k e h => absurd h.symm (Option.some_ne_none e),
      fun addr summary h => absurd h.symm (Option.some_ne_none summary)⟩
  | append_singleton calls call ih =>
    have hcall : call ∈ calls ++ [call] := List.mem_append_right _ List.mem_cons_self
    have hbefore : SentBy senders calls := fun now addr filter hmem =>
      hsent now addr filter (List.mem_append_left _ hmem)
    rw [List.map_append, List.map_singleton] at hsorted
    obtain ⟨hsorted, -, hlast⟩ := List.pairwise_append.mp hsorted
    have hreflects := ih hbefore hsorted fun c hc =>
      hlast c.now (List.mem_map_of_mem hc) call.now List.mem_cons_self
    rw [after_concat]
    refine Reflects.mono ?_ (hnow call hcall)
    cases call with
    | update now addr filter =>
      exact hreflects.update hinj hbefore (hsent now addr filter hcall) filter
    | select it now key =>
      -- A selection receives nothing.
      have hlatest : ∀ a, latest (calls ++ [.select it now key]) a = latest calls a :=
        fun a => latest_concat calls _ a
      obtain ⟨httl_eq, hfound, hkept⟩ := (hreflects.prune httl).1
      refine ⟨httl_eq, fun k e hmem => ?_, fun a summary h => ?_⟩
      · rw [hlatest]
        exact hfound k e hmem
      · rw [hlatest] at h
        exact hkept a summary h

/-! ## The selection -/

/-- What is selected is the address of a summary that was kept and matches. -/
theorem entry_of_selected {it : Iteration} {key : Bytes} {addr : SockaddrIn}
    (h : (t.selectNeighbor it now key).2 = some addr) :
    ∃ k e, (t.pruneLocked now).neighbors.lookup k = some e ∧
      e.filter.maybeContains key = true ∧ e.addr = addr := by
  obtain ⟨⟨k, e⟩, hfind, haddr⟩ := Option.map_eq_some_iff.mp h
  have hmem := it.mem_order.mp (List.mem_of_find?_eq_some hfind)
  have hmatches := List.find?_some hfind
  exact ⟨k, e, lookup_eq_some_iff.mpr hmem, hmatches, haddr⟩

/-- Where nothing is selected, no summary that was kept matches. -/
theorem not_matches_of_none {it : Iteration} {key : Bytes}
    (h : (t.selectNeighbor it now key).2 = none) {k : Bytes} {e : NeighborEntry}
    (hfound : (t.pruneLocked now).neighbors.lookup k = some e) :
    e.filter.maybeContains key = false := by
  have hfind := Option.map_eq_none_iff.mp h
  have hentry := List.find?_eq_none.mp hfind ⟨k, e⟩ (it.mem_order.mpr
    (lookup_eq_some_iff.mp hfound))
  exact Bool.eq_false_of_not_eq_true hentry

/-- The order that starts at a position, and goes round. -/
def startingAt (n : ℕ) : Iteration := ⟨fun l => l.rotate n, fun l => l.rotate_perm n⟩

/-- Any summary that was kept and matches is selected in some order. -/
theorem exists_selected {key : Bytes} {k : Bytes} {e : NeighborEntry}
    (hfound : (t.pruneLocked now).neighbors.lookup k = some e)
    (hmatches : e.filter.maybeContains key = true) :
    ∃ it, (t.selectNeighbor it now key).2 = some e.addr := by
  obtain ⟨before, behind, hentries⟩ :=
    List.append_of_mem (lookup_eq_some_iff.mp hfound)
  refine ⟨startingAt before.length, ?_⟩
  have horder : (startingAt before.length).order (t.pruneLocked now).neighbors.entries =
      ⟨k, e⟩ :: behind ++ before := by
    rw [hentries]
    exact List.rotate_append_length_eq before (⟨k, e⟩ :: behind)
  unfold selectNeighbor
  dsimp only
  rw [horder]
  simp only [List.cons_append, List.find?_cons, hmatches, Option.map_some]

/-- Neighbor selection is sound and complete. For every positive ttl, every sequence of updates from
senders whose addresses differ in their texts and of selections, at times that do not go back, and
every selection after it: what is returned is an address whose latest summary is at most the ttl old
and matches the key; nothing is returned only if no address is like that; each such address is
returned in some order of the loop, so that the results depend on the latest summaries only; and
something is returned if a latest summary that is at most the ttl old was built from values with the
key among them. -/
theorem selection_exact (bit_count hash_count : ℕ) (ttl : ℤ) (httl : 0 < ttl)
    (senders : Set SockaddrIn) (hinj : Set.InjOn addrToString senders) (calls : List Call)
    (hsent : SentBy senders calls) (now : ℤ)
    (hsorted : (calls.map Call.now ++ [now]).Pairwise (· ≤ ·)) (key : Bytes) :
    let t := (construct bit_count hash_count ttl).after calls
    (∀ it addr, (t.selectNeighbor it now key).2 = some addr → Matching ttl calls now key addr) ∧
      (∀ it, (t.selectNeighbor it now key).2 = none →
        ∀ addr, ¬ Matching ttl calls now key addr) ∧
      (∀ addr, Matching ttl calls now key addr →
        ∃ it, (t.selectNeighbor it now key).2 = some addr) ∧
      ∀ addr summary values, latest calls addr = some summary →
        now - summary.time ≤ milliseconds ttl → BloomFilter.Built summary.filter values →
          key ∈ values → ∀ it, (t.selectNeighbor it now key).2 ≠ none := by
  intro t
  obtain ⟨hbefore, -, hlast⟩ := List.pairwise_append.mp hsorted
  have hreflects : Reflects ttl calls now t :=
    reflects_after httl bit_count hash_count hinj hsent hbefore fun call hcall =>
      hlast call.now (List.mem_map_of_mem hcall) now List.mem_cons_self
  obtain ⟨hpruned, hfresh⟩ := hreflects.prune httl
  -- The entries that the loop finds are the latest summaries that are not too old.
  have hsound : ∀ it addr, (t.selectNeighbor it now key).2 = some addr →
      Matching ttl calls now key addr := fun it addr hselected => by
    obtain ⟨k, e, hfound, hmatches, rfl⟩ := entry_of_selected hselected
    exact ⟨_, (hpruned.found k e hfound).2, hfresh k e hfound, hmatches⟩
  have hcomplete : ∀ it, (t.selectNeighbor it now key).2 = none →
      ∀ addr, ¬ Matching ttl calls now key addr := by
    rintro it hnone addr ⟨summary, hlatest, htime, hmatches⟩
    have hmiss := not_matches_of_none hnone (hpruned.kept addr summary hlatest htime)
    rw [hmatches] at hmiss
    exact Bool.noConfusion hmiss
  refine ⟨hsound, hcomplete, ?_, ?_⟩
  · rintro addr ⟨summary, hlatest, htime, hmatches⟩
    exact exists_selected (hpruned.kept addr summary hlatest htime) hmatches
  · intro addr summary values hlatest htime hbuilt hkey it hnone
    obtain ⟨hbits, -, hhashes, -⟩ := hbuilt.validShape
    have hmatches : summary.filter.maybeContains key = true :=
      (summary.filter.maybeContains_iff_covers key (by omega) (by omega)).mpr
        (hbuilt.covers key hkey)
    exact hcomplete it hnone addr ⟨summary, hlatest, htime, hmatches⟩

/-- The addresses of IPv4 sockets differ in their texts. -/
theorem injOn_addrToString : Set.InjOn addrToString {addr | addr.sin_family = afInet} := by
  rintro ⟨family, port, host⟩ hfamily ⟨family', port', host'⟩ hfamily' h
  obtain ⟨rfl, rfl⟩ := addrToString_inj.mp h
  obtain rfl : family = afInet := hfamily
  obtain rfl : family' = afInet := hfamily'
  rfl

/-- An address of a neighbor. -/
def neighborAt (host : UInt32) : SockaddrIn := ⟨afInet, 9000, host⟩

/-- Two neighbors, of which the first has replaced its summary. -/
def twoNeighbors : List Call :=
  [.update 1 (neighborAt 7) (.ofValues 64 2 [ascii "k"]),
    .update 2 (neighborAt 8) (.ofValues 64 2 [ascii "k", ascii "l"]),
    .update 3 (neighborAt 7) (.ofValues 64 2 [])]

/-- The second is selected, and its summary is the latest. -/
theorem selection_exact_two :
    (((construct 64 2 3000).after twoNeighbors).selectNeighbor default 4 (ascii "k")).2 =
        some (neighborAt 8) ∧
      Matching 3000 twoNeighbors 4 (ascii "k") (neighborAt 8) := by
  have hsent : SentBy {addr | addr.sin_family = afInet} twoNeighbors := by
    intro now addr filter hmem
    simp only [twoNeighbors, List.mem_cons, Call.update.injEq, List.not_mem_nil, or_false] at hmem
    rcases hmem with ⟨-, rfl, -⟩ | ⟨-, rfl, -⟩ | ⟨-, rfl, -⟩ <;> exact rfl
  have hselected : (((construct 64 2 3000).after twoNeighbors).selectNeighbor default 4
      (ascii "k")).2 = some (neighborAt 8) := by decide +kernel
  exact ⟨hselected, (selection_exact 64 2 3000 (by decide) _ injOn_addrToString twoNeighbors hsent
    4 (by decide) (ascii "k")).1 default _ hselected⟩

end Netos.ContentBloomTable
