import Netos.Core.NeighborList
import Netos.Scripts.EnvFiles

/-!
# The topology export against the node

The links that `generate_topology.py` derives from an env file, against the node id and the
neighbors that `load_config` derives from it. `Shared` is the condition on the text of the file
under which they agree (`export_agrees`): the export does not know the prefix `export `, keeps ports
that the node drops or narrows, and has other blanks and line ends.
-/

namespace Netos.TopologyExport

open CString Cxx
open Assignments (LastOf)
open GenerateTopology (Str isWhitespace isLineEnd strip)

/-! ## What should agree -/

/-- An entry `host:port`, without the blanks around it, whose port is a decimal number that is a
positive `int`. -/
def LinkEntry (token : Bytes) : Prop :=
  ∃ host port, token = host ++ 58 :: port ∧ 58 ∉ host ∧ trim host ≠ [] ∧ trim port ≠ [] ∧
    (∀ c ∈ trim port, isDigit c = true) ∧ 0 < digitsValue (trim port) ∧
      digitsValue (trim port) < 2 ^ 31

/-- A list whose entries are links or blank. -/
def LinkList (raw : Bytes) : Prop :=
  ∀ entry ∈ raw.splitOn 44, trim entry = [] ∨ LinkEntry (trim entry)

/-- A link of the export names a neighbor: it has its host, and its port is a decimal numeral of the
neighbor's port. -/
def Names (link : Str × Str) (neighbor : NeighborConfig) : Prop :=
  Utf8.encode link.1 = neighbor.host ∧ Utf8.encode link.2 ≠ [] ∧
    (∀ c ∈ Utf8.encode link.2, isDigit c = true) ∧
      (digitsValue (Utf8.encode link.2) : ℤ) = neighbor.port.toInt

/-- The export derives from a file the node id and the neighbors of a configuration. -/
def ExportAgrees (file : Bytes) (config : Config) : Prop :=
  ∃ env, GenerateTopology.parseEnvFile file = some env ∧
    (env.lookup "NETOS_NODE_ID".toList).map Utf8.encode = some config.node_id ∧
      List.Forall₂ Names
        (GenerateTopology.parseNeighbors ((env.lookup "NETOS_NEIGHBORS".toList).getD []))
        config.neighbors

/-! ## The condition -/

/-- An item of the list whose ends, and whose parts before and behind the first colon, both programs
strip alike. -/
def PlainItem (item : Str) : Prop :=
  StrippedAlike item ∧ StrippedAlike ((strip item).takeWhile (· != ':')) ∧
    StrippedAlike ((strip item).dropWhile (· != ':')).tail

/-- Decidable, as its parts are. -/
instance : DecidablePred PlainItem := fun _ => inferInstanceAs (Decidable (_ ∧ _ ∧ _))

/-- A list of such items. -/
def PlainList (list : Str) : Prop := ∀ item ∈ list.splitOn ',', PlainItem item

/-- Decidable, as its items are. -/
instance : DecidablePred PlainList := fun _ =>
  decidable_of_iff _ List.forall_iff_forall_mem

/-- The last lines that one of the programs takes for assignments to the two keys, the prefix apart,
and the neighbor list that such a line gives, are plain. -/
structure PlainText (text : Str) : Prop where
  /-- The line for the node id. -/
  node_id : PlainKey "NETOS_NODE_ID".toList (text.splitOn '\n')
  /-- The line for the neighbors. -/
  neighbors : PlainKey "NETOS_NEIGHBORS".toList (text.splitOn '\n')
  /-- The neighbor list. -/
  list : ∀ list, LastOf (Unexported (ascii "NETOS_NEIGHBORS")) ((Utf8.encode text).splitOn 10)
    (some (Utf8.encode list)) → PlainList list

/-- A file that is plain, if it is a text. -/
def PlainFile (file : Bytes) : Prop := ∀ text, Utf8.decode file = some text → PlainText text

/-- What an entry of the list names for the node: its nonempty parts around the colons are a host
that is not blank, and a text that starts with a number which is positive as an `int`. -/
def NamedBy (entry : Bytes) (neighbor : NeighborConfig) : Prop :=
  ∃ host port z rest, split entry 58 true = [host, port] ∧ trim host ≠ [] ∧
    StartsWith port z rest ∧ 0 < castInt z ∧ neighbor = ⟨trim host, castInt z⟩

/-- The entries that name a neighbor name these, in order. -/
inductive NamedInOrder : List Bytes → List NeighborConfig → Prop where
  | nil : NamedInOrder [] []
  | named {entry neighbor entries neighbors} (h : NamedBy entry neighbor)
    (rest : NamedInOrder entries neighbors) :
    NamedInOrder (entry :: entries) (neighbor :: neighbors)
  | other {entry entries neighbors} (h : ∀ neighbor, ¬ NamedBy entry neighbor)
    (rest : NamedInOrder entries neighbors) : NamedInOrder (entry :: entries) neighbors

/-- Two lists name the same neighbors. -/
def SameNeighbors (raw raw' : Bytes) : Prop :=
  ∃ neighbors, NamedInOrder ((trim raw).splitOn 44) neighbors ∧
    NamedInOrder ((trim raw').splitOn 44) neighbors

/-- The condition on an env file. It is UTF-8 and plain, what its last line for the node id gives is
what the last one without the prefix gives, and the list that its last line for the neighbors gives
names the same neighbors as that of the last one without the prefix, which is a list of links. -/
structure Shared (file : Bytes) : Prop where
  /-- The file is UTF-8. -/
  text : ∃ text, Utf8.decode file = some text
  /-- The deciding lines have no blanks or line ends that only Python knows where these matter. -/
  plain : PlainFile file
  /-- The last line for the node id is not exported, or repeats what an earlier one gives. -/
  node_id : ∃ id, LastOf (Unexported (ascii "NETOS_NODE_ID")) (file.splitOn 10) (some id) ∧
    LastOf (Given (ascii "NETOS_NODE_ID")) (file.splitOn 10) (some id)
  /-- The ports are decimal numbers and positive `int`s. -/
  links : ∀ list, LastOf (Unexported (ascii "NETOS_NEIGHBORS")) (file.splitOn 10) list →
    LinkList (list.getD [])
  /-- The last line for the neighbors is not exported, or names the same ones as an earlier one. -/
  neighbors : ∀ list list', LastOf (Unexported (ascii "NETOS_NEIGHBORS")) (file.splitOn 10) list →
    LastOf (Given (ascii "NETOS_NEIGHBORS")) (file.splitOn 10) list' →
      SameNeighbors (list.getD []) (list'.getD [])

/-! ## Neighbors that are named -/

/-- What an entry names is what the node makes of it. -/
theorem namedBy_iff {entry : Bytes} {neighbor : NeighborConfig} :
    NamedBy entry neighbor ↔ parseNeighbor entry = some neighbor := by
  rw [parseNeighbor_eq_some_iff]
  constructor
  · rintro ⟨host, port, z, rest, hparts, hhost, hstarts, hpos, rfl⟩
    rw [← strtolValue_of_startsWith hstarts] at hpos ⊢
    exact ⟨host, port, hparts, hhost, hpos, rfl⟩
  · rintro ⟨host, port, hparts, hhost, hpos, rfl⟩
    obtain ⟨z, rest, hstarts⟩ := exists_startsWith_of_pos hpos
    rw [strtolValue_of_startsWith hstarts] at hpos ⊢
    exact ⟨host, port, z, rest, hparts, hhost, hstarts, hpos, rfl⟩

/-- The entries of a list name what the node makes of them. -/
theorem namedInOrder_iff {entries : List Bytes} {neighbors : List NeighborConfig} :
    NamedInOrder entries neighbors ↔ entries.filterMap parseNeighbor = neighbors := by
  constructor
  · intro h
    induction h with
    | nil => rfl
    | named h _ ih => rw [List.filterMap_cons, namedBy_iff.mp h, ih]
    | other h _ ih =>
      have hnone := Option.eq_none_iff_forall_ne_some.mpr fun n hn => h n (namedBy_iff.mpr hn)
      rw [List.filterMap_cons, hnone, ih]
  · rintro rfl
    induction entries with
    | nil => exact .nil
    | cons entry entries ih =>
      rw [List.filterMap_cons]
      cases hentry : parseNeighbor entry with
      | none => exact .other (fun n hn => by cases hentry.symm.trans (namedBy_iff.mp hn)) ih
      | some neighbor => exact .named (namedBy_iff.mpr hentry) ih

/-- Two lists name the same neighbors exactly if the node makes the same of them. -/
theorem sameNeighbors_iff {raw raw' : Bytes} :
    SameNeighbors raw raw' ↔ parseNeighbors raw = parseNeighbors raw' := by
  unfold SameNeighbors
  simp only [namedInOrder_iff, parseNeighbors_eq_filterMap]
  exact ⟨fun ⟨_, h, h'⟩ => h.trans h'.symm, fun h => ⟨_, h, rfl⟩⟩

/-! ## Entries of the neighbor list -/

/-- A link names one neighbor at most. -/
theorem rightUnique_names : Relator.RightUnique Names := fun link n n' h h' => by
  obtain ⟨hhost, -, -, hport⟩ := h
  obtain ⟨hhost', -, -, hport'⟩ := h'
  have hsame : n.port = n'.port := Int32.toInt_inj.mp (hport.symm.trans hport')
  calc n = ⟨n.host, n.port⟩ := rfl
    _ = ⟨n'.host, n'.port⟩ := by rw [← hhost, hhost', hsame]
    _ = n' := rfl

/-- A digit or a blank is no colon. -/
theorem colon_notMem {port : Bytes} (hport : ∀ c ∈ trim port, isDigit c = true) : 58 ∉ port := by
  obtain ⟨front, back, hends, hfront, hback⟩ := Blanks.exists_ends isSpace port
  rw [hends, List.mem_append, List.mem_append, not_or, not_or]
  have hblank : ∀ {b : Bytes}, (∀ c ∈ b, isSpace c = true) → 58 ∉ b := fun hb hmem =>
    absurd (hb 58 hmem) (by decide)
  exact ⟨hblank hfront, fun hmem => absurd (hport 58 hmem) (by decide), hblank hback⟩

/-- A link between blanks states a neighbor. -/
theorem statedNeighbor_of_linkEntry {entry host port : Bytes}
    (hentry : trim entry = host ++ 58 :: port) (hcolon : 58 ∉ host) (hhost : trim host ≠ [])
    (hport : trim port ≠ []) (hdigits : ∀ c ∈ trim port, isDigit c = true)
    (hpos : 0 < digitsValue (trim port)) (hlt : digitsValue (trim port) < 2 ^ 31) :
    statedNeighbor entry = some ⟨trim host, Int32.ofInt (digitsValue (trim port))⟩ := by
  have hparts : (trim entry).splitOn 58 = [host, port] := by
    rw [hentry, List.splitOn_append_cons_self_of_not_mem hcolon,
      List.splitOn_eq_singleton (colon_notMem hdigits)]
  rw [← statedNeighbor_trim, statedNeighbor_eq_some_iff]
  exact ⟨host, port, hparts, hhost, hport, hdigits, hpos, hlt, rfl⟩

/-- The node makes nothing of a blank entry. -/
theorem parseNeighbor_of_blank {entry : Bytes} (h : trim entry = []) :
    parseNeighbor entry = none := by
  have hblank : ∀ c ∈ entry, isSpace c = true := Blanks.strip_eq_nil_iff.mp h
  have hcolon : 58 ∉ entry := fun hmem => absurd (hblank 58 hmem) (by decide)
  unfold parseNeighbor
  rw [split_skip_empty, List.splitOn_eq_singleton hcolon]
  cases entry with
  | nil => rfl
  | cons c entry => rfl

/-- The node makes of the entries of a list of links what they state. -/
theorem parseNeighbor_eq_stated {entry : Bytes} (h : trim entry = [] ∨ LinkEntry (trim entry)) :
    parseNeighbor entry = statedNeighbor entry := by
  rcases h with h | ⟨host, port, hentry, hcolon, hhost, hport, hdigits, hpos, hlt⟩
  · rw [parseNeighbor_of_blank h]
    cases hstated : statedNeighbor entry with
    | none => rfl
    | some neighbor =>
      -- The parser would take it.
      rw [← parseNeighbor_of_blank h]
      exact parseNeighbor_of_stated hstated
  · have hstated := statedNeighbor_of_linkEntry hentry hcolon hhost hport hdigits hpos hlt
    rw [hstated, parseNeighbor_of_stated hstated]

/-- The neighbors of a list of links are those of its entries. -/
theorem parseNeighbors_of_linkList {raw : Bytes} (h : LinkList raw) :
    parseNeighbors raw = (raw.splitOn 44).filterMap parseNeighbor := by
  have hfields : ((trim raw).splitOn 44).map trim = (raw.splitOn 44).map trim :=
    Blanks.map_strip_splitOn (by decide) raw
  have hgood : ∀ entry ∈ (trim raw).splitOn 44, trim entry = [] ∨ LinkEntry (trim entry) :=
    fun entry hentry => by
      have hmem : trim entry ∈ (raw.splitOn 44).map trim := hfields ▸ List.mem_map_of_mem hentry
      obtain ⟨entry', hentry', heq⟩ := List.mem_map.mp hmem
      exact heq ▸ h entry' hentry'
  calc parseNeighbors raw = ((trim raw).splitOn 44).filterMap parseNeighbor :=
        parseNeighbors_eq_filterMap raw
    _ = statedNeighbors (trim raw) :=
        List.filterMap_congr fun entry hentry => parseNeighbor_eq_stated (hgood entry hentry)
    _ = statedNeighbors raw := statedNeighbors_trim raw
    _ = (raw.splitOn 44).filterMap parseNeighbor :=
        List.filterMap_congr fun entry hentry => (parseNeighbor_eq_stated (h entry hentry)).symm

/-! ## Items of the export -/

section Item

variable {item : Str} (hplain : PlainItem item)

include hplain in
/-- From a link, the export derives what the node derives. -/
theorem names_of_linkEntry (h : LinkEntry (Utf8.encode (strip item))) :
    ∃ link neighbor, GenerateTopology.parseNeighbor item = some link ∧
      parseNeighbor (Utf8.encode item) = some neighbor ∧ Names link neighbor := by
  obtain ⟨host, port, hentry, hcolon, hhost, hport, hdigits, hpos, hlt⟩ := h
  have hother : ∀ c ∈ host, (c != Utf8.byte ':') = true := fun c hc =>
    bne_iff_ne.mpr fun heq => hcolon (by rw [heq] at hc; exact hc)
  -- Both programs cut the entry at its first colon.
  have hfront : Utf8.encode ((strip item).takeWhile (· != ':')) = host := by
    rw [← Utf8.takeWhile_ne_encode (by decide), hentry, List.takeWhile_append_of_pos hother]
    exact List.append_nil host
  obtain ⟨rest, hrest, hback⟩ : ∃ rest, (strip item).dropWhile (· != ':') = ':' :: rest ∧
      Utf8.encode rest = port := by
    have hdrop : (host ++ 58 :: port).dropWhile (· != Utf8.byte ':') = 58 :: port := by
      rw [List.dropWhile_append_of_pos hother]
      rfl
    rcases Utf8.dropWhile_ne_encode (d := ':') (by decide) (strip item) with
      ⟨-, hnone⟩ | ⟨rest, hrest, hsome⟩
    · rw [hentry, hdrop] at hnone
      cases hnone
    · rw [hentry, hdrop] at hsome
      exact ⟨rest, hrest, (List.cons.inj hsome).2.symm⟩
  have hne : strip item ≠ [] := fun hnil => by simp [hnil] at hrest
  have hlink : GenerateTopology.parseNeighbor item =
      some (strip ((strip item).takeWhile (· != ':')), strip rest) := by
    unfold GenerateTopology.parseNeighbor
    dsimp only
    rw [if_neg hne, hrest]
  obtain ⟨hitem, hbefore, hbehind⟩ := hplain
  rw [hrest, List.tail_cons] at hbehind
  have hhost' : Utf8.encode (strip ((strip item).takeWhile (· != ':'))) = trim host := by
    rw [← hbefore.trim_encode, hfront]
  have hport' : Utf8.encode (strip rest) = trim port := by
    rw [← hbehind.trim_encode, hback]
  have hstated := statedNeighbor_of_linkEntry (hitem.trim_encode.trans hentry) hcolon hhost
    hport hdigits hpos hlt
  refine ⟨_, _, hlink, parseNeighbor_of_stated hstated, hhost', ?_, ?_, ?_⟩
  · rwa [hport']
  · rwa [hport']
  · rw [hport', toInt_of_port hlt]

include hplain in
/-- What names a neighbor of the node is a link. -/
theorem linkEntry_of_names {link : Str × Str} {neighbor : NeighborConfig}
    (hlink : GenerateTopology.parseNeighbor item = some link) (hnames : Names link neighbor)
    (hhost : neighbor.host ≠ []) (hport : 0 < neighbor.port) :
    LinkEntry (Utf8.encode (strip item)) := by
  unfold GenerateTopology.parseNeighbor at hlink
  dsimp only at hlink
  split_ifs at hlink with hempty
  rcases Utf8.dropWhile_ne_encode (d := ':') (by decide) (strip item) with
    ⟨hnone, -⟩ | ⟨rest, hrest, -⟩
  · -- Without a colon the export has no port.
    rw [hnone] at hlink
    obtain rfl := Option.some.inj hlink
    exact absurd rfl hnames.2.1
  · rw [hrest] at hlink
    obtain rfl := Option.some.inj hlink
    obtain ⟨hname, hne, hdigits, hvalue⟩ := hnames
    dsimp only at hname hne hdigits hvalue
    obtain ⟨-, hbefore, hbehind⟩ := hplain
    rw [hrest, List.tail_cons] at hbehind
    rw [← hbefore.trim_encode] at hname
    rw [← hbehind.trim_encode] at hne hdigits hvalue
    have hpos : 0 < neighbor.port.toInt := by
      rw [Int32.lt_iff_toInt_lt] at hport
      exact hport
    have hlt : neighbor.port.toInt < 2 ^ 31 := neighbor.port.toInt_lt
    refine ⟨Utf8.encode ((strip item).takeWhile (· != ':')), Utf8.encode rest, ?_, ?_,
      by rwa [hname], hne, hdigits, by omega, by omega⟩
    · have hwhole : strip item = (strip item).takeWhile (· != ':') ++ ':' :: rest := by
        rw [← hrest, List.takeWhile_append_dropWhile]
      conv_lhs => rw [hwhole]
      rw [Utf8.encode_append, Utf8.encode_cons, Utf8.encodeChar_of_ascii (by decide)]
      rfl
    · rw [← Utf8.takeWhile_ne_encode (by decide)]
      exact fun hmem => absurd (List.mem_takeWhile_imp hmem) (by decide)

end Item

/-- A list without a link is plain. -/
theorem plainList_nil : PlainList [] := by decide

/-- Two loops over the same items that skip the same ones return related lists. -/
theorem forall₂_filterMap {α β γ : Type} {r : β → γ → Prop} {f : α → Option β} {g : α → Option γ}
    {l : List α} (h : ∀ a ∈ l, f a = none ∧ g a = none ∨
      ∃ b c, f a = some b ∧ g a = some c ∧ r b c) :
    List.Forall₂ r (l.filterMap f) (l.filterMap g) := by
  induction l with
  | nil => exact List.Forall₂.nil
  | cons a l ih =>
    obtain ⟨ha, hl⟩ := List.forall_mem_cons.mp h
    rw [List.filterMap_cons, List.filterMap_cons]
    rcases ha with ⟨hf, hg⟩ | ⟨b, c, hf, hg, hr⟩
    · rw [hf, hg]
      exact ih hl
    · rw [hf, hg]
      exact List.Forall₂.cons hr (ih hl)

/-- Every element of the first of two related lists is related to one of the second. -/
theorem exists_of_mem_forall₂ {β γ : Type} {r : β → γ → Prop} {l : List β} {l' : List γ}
    (h : List.Forall₂ r l l') {b : β} (hb : b ∈ l) : ∃ c ∈ l', r b c := by
  induction h with
  | nil => cases hb
  | cons hr _ ih =>
    rcases List.mem_cons.mp hb with rfl | hb
    · exact ⟨_, List.mem_cons_self, hr⟩
    · obtain ⟨c, hc, hrc⟩ := ih hb
      exact ⟨c, List.mem_cons_of_mem _ hc, hrc⟩

section Value

variable {value : Str} (hplain : PlainList value)

/-- Both programs cut a value into the same items. -/
theorem splitOn_encode_value (value : Str) :
    (Utf8.encode value).splitOn 44 = (value.splitOn ',').map Utf8.encode := by
  have hbyte : Utf8.byte ',' = 44 := rfl
  rw [← hbyte, Utf8.splitOn_encode (by decide)]

include hplain in
/-- From a list of links, the export derives what the node derives. -/
theorem forall₂_names_of_linkList (hlist : LinkList (Utf8.encode value)) :
    List.Forall₂ Names (GenerateTopology.parseNeighbors value)
      (parseNeighbors (Utf8.encode value)) := by
  rw [parseNeighbors_of_linkList hlist, splitOn_encode_value, List.filterMap_map]
  refine forall₂_filterMap fun item hitem => ?_
  have halike : StrippedAlike item := (hplain item hitem).1
  have hentry := hlist (Utf8.encode item)
    (splitOn_encode_value value ▸ List.mem_map_of_mem hitem)
  rw [halike.trim_encode] at hentry
  rcases hentry with hblank | hentry
  · have hempty : strip item = [] := Utf8.encode_eq_nil_iff.mp hblank
    exact Or.inl ⟨if_pos hempty, parseNeighbor_of_blank (halike.trim_encode.trans hblank)⟩
  · exact Or.inr (names_of_linkEntry (hplain item hitem) hentry)

/-- The export makes nothing of blank items only. -/
theorem strip_of_parseNeighbor_eq_none {item : Str}
    (h : GenerateTopology.parseNeighbor item = none) : strip item = [] := by
  unfold GenerateTopology.parseNeighbor at h
  dsimp only at h
  by_contra hne
  rw [if_neg hne] at h
  split at h <;> cases h

include hplain in
/-- A value whose items name neighbors is a list of links. -/
theorem linkList_of_forall₂_names {neighbors : List NeighborConfig}
    (hneighbors : ∀ neighbor ∈ neighbors, neighbor.host ≠ [] ∧ 0 < neighbor.port)
    (hnames : List.Forall₂ Names (GenerateTopology.parseNeighbors value) neighbors) :
    LinkList (Utf8.encode value) := fun entry hentry => by
  rw [splitOn_encode_value] at hentry
  obtain ⟨item, hitem, rfl⟩ := List.mem_map.mp hentry
  rw [(hplain item hitem).1.trim_encode]
  cases hlink : GenerateTopology.parseNeighbor item with
  | none => exact Or.inl (Utf8.encode_eq_nil_iff.mpr (strip_of_parseNeighbor_eq_none hlink))
  | some link =>
    have hmem : link ∈ GenerateTopology.parseNeighbors value :=
      List.mem_filterMap.mpr ⟨item, hitem, hlink⟩
    obtain ⟨neighbor, hneighbor, hname⟩ := exists_of_mem_forall₂ hnames hmem
    obtain ⟨hhost, hport⟩ := hneighbors neighbor hneighbor
    exact Or.inr (linkEntry_of_names (hplain item hitem) hlink hname hhost hport)

include hplain in
/-- The links of the export name the neighbors of a node exactly if the list is one of links, and
the node derives these neighbors from it. -/
theorem forall₂_names_iff {neighbors : List NeighborConfig}
    (hneighbors : ∀ neighbor ∈ neighbors, neighbor.host ≠ [] ∧ 0 < neighbor.port) :
    List.Forall₂ Names (GenerateTopology.parseNeighbors value) neighbors ↔
      LinkList (Utf8.encode value) ∧ parseNeighbors (Utf8.encode value) = neighbors := by
  constructor
  · intro hnames
    have hlist := linkList_of_forall₂_names hplain hneighbors hnames
    have hagree := forall₂_names_of_linkList hplain hlist
    exact ⟨hlist, List.right_unique_forall₂' rightUnique_names hagree hnames⟩
  · rintro ⟨hlist, rfl⟩
    exact forall₂_names_of_linkList hplain hlist

end Value

/-! ## The export and the node -/

/-- The neighbor list of an env file, empty if there is none. -/
def neighborList (env_file : EnvMap) : Bytes := (env_file.lookup (ascii "NETOS_NEIGHBORS")).getD []

/-- The bytes of the key of the node id. -/
theorem encode_node_id : Utf8.encode "NETOS_NODE_ID".toList = ascii "NETOS_NODE_ID" := by decide

/-- The bytes of the key of the neighbors. -/
theorem encode_neighbors : Utf8.encode "NETOS_NEIGHBORS".toList = ascii "NETOS_NEIGHBORS" := by
  decide

/-- What the lines of a file that are not exported give for the neighbors. -/
theorem lastOf_unexported_neighbors (file : Bytes) (list : Option Bytes) :
    LastOf (Unexported (ascii "NETOS_NEIGHBORS")) (file.splitOn 10) list ↔
      (readUnexported file).lookup (ascii "NETOS_NEIGHBORS") = list := by
  have h := lastOf_unexported isKey_neighbors file list
  rwa [encode_neighbors] at h

/-- The condition, on what the node reads with the exported lines and without. -/
theorem shared_iff {file : Bytes} : Shared file ↔
    (∃ text, Utf8.decode file = some text) ∧ PlainFile file ∧
      (∃ id, (readUnexported file).lookup (ascii "NETOS_NODE_ID") = some id ∧
        (readEnv file).lookup (ascii "NETOS_NODE_ID") = some id) ∧
      LinkList (neighborList (readUnexported file)) ∧
      parseNeighbors (neighborList (readUnexported file)) =
        parseNeighbors (neighborList (readEnv file)) := by
  have hid := lastOf_unexported isKey_node_id file
  have hid' := lastOf_given isKey_node_id file
  have hlist := lastOf_unexported_neighbors file
  have hlist' := lastOf_given isKey_neighbors file
  rw [encode_node_id] at hid hid'
  rw [encode_neighbors] at hlist'
  constructor
  · rintro ⟨htext, hplain, ⟨id, hunexported, hgiven⟩, hlinks, hneighbors⟩
    exact ⟨htext, hplain, ⟨id, (hid _).mp hunexported, (hid' _).mp hgiven⟩,
      hlinks _ ((hlist _).mpr rfl),
      sameNeighbors_iff.mp (hneighbors _ _ ((hlist _).mpr rfl) ((hlist' _).mpr rfl))⟩
  · rintro ⟨htext, hplain, ⟨id, hunexported, hgiven⟩, hlinks, hneighbors⟩
    refine ⟨htext, hplain, ⟨id, (hid _).mpr hunexported, (hid' _).mpr hgiven⟩,
      fun list h => ?_, fun list list' h h' => ?_⟩
    · rw [← (hlist _).mp h]
      exact hlinks
    · rw [← (hlist _).mp h, ← (hlist' _).mp h']
      exact sameNeighbors_iff.mpr hneighbors

/-- What the node takes from a file that names a node id, when nothing else sets it. -/
theorem loadConfig_of_file (strtod : Bytes → Option (ℚ × Bytes)) {environ : Environ}
    {files : Files} {file : Bytes} (hpath : configPath environ ≠ [])
    (hfile : files (configPath environ) = some file)
    (hid : getEnvOnly environ "NETOS_NODE_ID" = [])
    (hlist : getEnvOnly environ "NETOS_NEIGHBORS" = [])
    (hnamed : ((readEnv file).lookup (ascii "NETOS_NODE_ID")).getD [] ≠ []) :
    (readEnv file).lookup (ascii "NETOS_NODE_ID") =
        some (loadConfig strtod environ files).config.node_id ∧
      (loadConfig strtod environ files).config.neighbors =
        parseNeighbors (neighborList (readEnv file)) := by
  have hconfig : (loadConfig strtod environ files).config =
      configOf strtod environ (readEnv file) (configPath environ) := by
    unfold loadConfig loadEnvFile
    dsimp only
    rw [if_neg hpath, hfile]
  have hnodeId : (loadConfig strtod environ files).config.node_id =
      ((readEnv file).lookup (ascii "NETOS_NODE_ID")).getD [] := by
    rw [hconfig]
    unfold configOf getSetting
    dsimp only
    rw [if_neg (not_not.mpr hid), if_pos hnamed]
  have hsetting : neighborSetting environ files = some (neighborList (readEnv file)) := by
    unfold neighborSetting getSetting
    rw [if_neg hpath, hfile, Option.map_some]
    dsimp only
    rw [if_neg (not_not.mpr hlist)]
    unfold neighborList
    split_ifs with hempty
    · rfl
    · rw [not_not.mp hempty]
  refine ⟨?_, neighbors_loadConfig hsetting⟩
  rw [hnodeId]
  cases hlookup : (readEnv file).lookup (ascii "NETOS_NODE_ID") with
  | none => exact absurd (by rw [hlookup]; rfl) hnamed
  | some id => rfl

/-- On a plain file, the export derives what the node derives without the exported lines. -/
theorem exportAgrees_iff {file : Bytes} {text : Str} (htext : Utf8.decode file = some text)
    (hplain : PlainFile file) {config : Config}
    (hconfig : ∀ neighbor ∈ config.neighbors, neighbor.host ≠ [] ∧ 0 < neighbor.port) :
    ExportAgrees file config ↔
      (readUnexported file).lookup (ascii "NETOS_NODE_ID") = some config.node_id ∧
        LinkList (neighborList (readUnexported file)) ∧
          parseNeighbors (neighborList (readUnexported file)) = config.neighbors := by
  have hencode : Utf8.encode text = file := Utf8.decode_eq_some_iff.mp htext
  have hparse := parseEnvFile_of_text htext
  have hid := lookup_parseEnvText_of_plain isKey_node_id (hplain text htext).node_id
  have hlist := lookup_parseEnvText_of_plain isKey_neighbors (hplain text htext).neighbors
  rw [hencode, encode_node_id] at hid
  rw [hencode, encode_neighbors] at hlist
  -- The list that the export reads is the one without the exported lines.
  generalize (GenerateTopology.parseEnvText (GenerateTopology.universalNewlines false text)) = env
    at hparse hid hlist
  have hvalue : Utf8.encode ((env.lookup "NETOS_NEIGHBORS".toList).getD []) =
      neighborList (readUnexported file) := by
    unfold neighborList
    rw [← hlist]
    cases env.lookup "NETOS_NEIGHBORS".toList with
    | none => rfl
    | some v => rfl
  have hitems : PlainList ((env.lookup "NETOS_NEIGHBORS".toList).getD []) := by
    cases hlookup : env.lookup "NETOS_NEIGHBORS".toList with
    | none => exact plainList_nil
    | some v =>
      rw [hlookup, Option.map_some] at hlist
      refine (hplain text htext).list v ?_
      rw [hencode]
      exact (lastOf_unexported_neighbors file _).mpr hlist.symm
  rw [← hid, ← hvalue, ← forall₂_names_iff hitems hconfig]
  constructor
  · rintro ⟨env', hparse', hagree⟩
    obtain rfl := Option.some.inj (hparse.symm.trans hparse')
    exact hagree
  · exact fun hagree => ⟨env, hparse, hagree⟩

/-- When the export agrees with the node. For every env file that names a node id, and every
environment that leads to it and sets neither the node id nor the neighbors: if the file meets the
condition, the node id and the links that the export derives from it are the node id and the
neighbors that the node loads; and if its deciding lines are plain, they are so only if it meets the
condition. -/
theorem export_agrees (strtod : Bytes → Option (ℚ × Bytes)) (environ : Environ) (files : Files)
    (file : Bytes) (hpath : configPath environ ≠ [])
    (hfile : files (configPath environ) = some file)
    (hid : getEnvOnly environ "NETOS_NODE_ID" = [])
    (hlist : getEnvOnly environ "NETOS_NEIGHBORS" = [])
    (hnamed : ((readEnv file).lookup (ascii "NETOS_NODE_ID")).getD [] ≠ []) :
    (Shared file → ExportAgrees file (loadConfig strtod environ files).config) ∧
      (PlainFile file → ExportAgrees file (loadConfig strtod environ files).config →
        Shared file) := by
  obtain ⟨hnodeId, hneighbors⟩ := loadConfig_of_file strtod hpath hfile hid hlist hnamed
  have hconfig : ∀ neighbor ∈ (loadConfig strtod environ files).config.neighbors,
      neighbor.host ≠ [] ∧ 0 < neighbor.port := fun neighbor hmem => by
    rw [hneighbors] at hmem
    obtain ⟨entry, -, hentry⟩ := mem_parseNeighbors.mp hmem
    obtain ⟨host, port, -, hhost, hport, rfl⟩ := parseNeighbor_eq_some_iff.mp hentry
    exact ⟨hhost, hport⟩
  constructor
  · intro hshared
    obtain ⟨⟨text, htext⟩, hplain, ⟨id, hunexported, hgiven⟩, hlinks, hsame⟩ :=
      shared_iff.mp hshared
    refine (exportAgrees_iff htext hplain hconfig).mpr
      ⟨hunexported.trans (hgiven.symm.trans hnodeId), hlinks, ?_⟩
    rw [hneighbors, hsame]
  · intro hplain hagree
    obtain ⟨text, htext⟩ : ∃ text, Utf8.decode file = some text := by
      -- Otherwise the export could not read the file.
      obtain ⟨env, hparse, -⟩ := hagree
      obtain ⟨_, hread, -⟩ := Option.map_eq_some_iff.mp hparse
      obtain ⟨text, htext, -⟩ := Option.map_eq_some_iff.mp hread
      exact ⟨text, htext⟩
    obtain ⟨hid', hlinks, hsame⟩ := (exportAgrees_iff htext hplain hconfig).mp hagree
    exact shared_iff.mpr
      ⟨⟨text, htext⟩, hplain, ⟨_, hid', hnodeId⟩, hlinks, hsame.trans hneighbors⟩

/-- The path of an env file. -/
def envPath : Bytes := ascii "infra/topology/line/node1.env"

/-- An env file with a comment in which a no-break space follows the node id, an exported line for
the node id that a later line overrides, and an exported line that repeats the neighbors. -/
def envText : Str :=
  "# NETOS_NODE_ID=\u00a0none\n".toList ++ "export NETOS_NODE_ID=node0\n".toList ++
    " NETOS_NODE_ID = 'node1'\r\n".toList ++ "NETOS_NEIGHBORS=n2:9002\n".toList ++
    "export NETOS_NEIGHBORS=\"n2:09002,\"".toList

/-- On that file the export agrees with the node. -/
theorem export_agrees_node1 :
    ExportAgrees (Utf8.encode envText)
      (loadConfig (fun _ => none) (namingFile envPath)
        (oneFile envPath (Utf8.encode envText))).config := by
  refine (export_agrees (fun _ => none) (namingFile envPath)
    (oneFile envPath (Utf8.encode envText)) (Utf8.encode envText) (by decide +kernel)
    (by decide +kernel) (by decide +kernel) (by decide +kernel) (by decide +kernel)).1
      (shared_iff.mpr ⟨⟨envText, Utf8.decode_eq_some_iff.mpr rfl⟩, fun text htext => ?_,
        ⟨ascii "node1", by decide +kernel, by decide +kernel⟩, fun entry hentry => Or.inr ?_,
        by decide +kernel⟩)
  · obtain rfl := Utf8.encode_injective (Utf8.decode_eq_some_iff.mp htext)
    -- The comment is no assignment, and the other lines are plain.
    have hid : ∀ line ∈ envText.splitOn '\n', exportValues "NETOS_NODE_ID".toList line ≠ [] ∨
        unexportedValue (Utf8.encode "NETOS_NODE_ID".toList) (Utf8.encode line) ≠ none →
          PlainLine line := List.forall_iff_forall_mem.mp (by decide +kernel)
    have hneighbors : ∀ line ∈ envText.splitOn '\n',
        exportValues "NETOS_NEIGHBORS".toList line ≠ [] ∨
          unexportedValue (Utf8.encode "NETOS_NEIGHBORS".toList) (Utf8.encode line) ≠ none →
            PlainLine line := List.forall_iff_forall_mem.mp (by decide +kernel)
    refine ⟨fun before line after hlines hassigns _ => ?_,
      fun before line after hlines hassigns _ => ?_, fun list hlist => ?_⟩
    · exact hid line (by simp [hlines]) ((assignmentLine_iff isKey_node_id).mp hassigns)
    · exact hneighbors line (by simp [hlines]) ((assignmentLine_iff isKey_neighbors).mp hassigns)
    · have hgiven : (readUnexported (Utf8.encode envText)).lookup (ascii "NETOS_NEIGHBORS") =
          some (Utf8.encode "n2:9002".toList) := by decide +kernel
      rw [lastOf_unexported_neighbors, hgiven] at hlist
      obtain rfl := Utf8.encode_injective (Option.some.inj hlist)
      decide
  · have hentries : (neighborList (readUnexported (Utf8.encode envText))).splitOn 44 =
        [ascii "n2:9002"] := by decide +kernel
    rw [hentries, List.mem_singleton] at hentry
    rw [hentry]
    exact ⟨ascii "n2", ascii "9002", by decide, by decide, by decide, by decide,
      List.all_eq_true.mp (by decide), by decide, by decide⟩

/-- A file whose last line for the node id is exported. -/
def exportedText : Str :=
  "NETOS_NODE_ID=node1\n".toList ++ "NETOS_NEIGHBORS=n2:9002\n".toList ++
    "export NETOS_NODE_ID=node3".toList

/-- For the node it is the file of `node3`, for the export that of `node1`. -/
theorem export_ignores_exported_line :
    (loadConfig (fun _ => none) (namingFile envPath)
        (oneFile envPath (Utf8.encode exportedText))).config.node_id = ascii "node3" ∧
      (∃ env, GenerateTopology.parseEnvFile (Utf8.encode exportedText) = some env ∧
        env.lookup "NETOS_NODE_ID".toList = some "node1".toList) ∧
      ¬ ExportAgrees (Utf8.encode exportedText)
        (loadConfig (fun _ => none) (namingFile envPath)
          (oneFile envPath (Utf8.encode exportedText))).config := by
  have hnode : (loadConfig (fun _ => none) (namingFile envPath)
      (oneFile envPath (Utf8.encode exportedText))).config.node_id = ascii "node3" := by
    decide +kernel
  have hparse := parseEnvFile_of_text (Utf8.decode_eq_some_iff.mpr (rfl :
    Utf8.encode exportedText = _))
  have hexport : (GenerateTopology.parseEnvText
      (GenerateTopology.universalNewlines false exportedText)).lookup "NETOS_NODE_ID".toList =
        some "node1".toList := by decide +kernel
  refine ⟨hnode, ⟨_, hparse, hexport⟩, fun hagree => ?_⟩
  obtain ⟨env, hparse', hid, -⟩ := hagree
  obtain rfl := Option.some.inj (hparse.symm.trans hparse')
  rw [hexport, hnode] at hid
  exact absurd hid (by decide)

end Netos.TopologyExport
