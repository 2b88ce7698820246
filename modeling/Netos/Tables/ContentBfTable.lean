import Netos.Network.Address
import Netos.Tables.BloomFilter
import Netos.Lib.Cxx

/-!
# The Content-BF table

`tables/content_bf_table.h` and `tables/content_bf_table.cpp`: the filter of the node's own keys,
and the last summary of every neighbor, under the text of its address.
-/

namespace Netos

open CString Cxx

/-- `ContentBloomTable::NeighborEntry`. -/
structure ContentBloomTable.NeighborEntry where
  /-- The summary. -/
  filter : BloomFilter
  /-- When it arrived. -/
  updated : ℤ
  /-- From where it arrived. -/
  addr : SockaddrIn

/-- `ContentBloomTable`. -/
structure ContentBloomTable where
  /-- The filter of the node's own keys. -/
  local_filter : BloomFilter
  /-- How long a summary counts, in milliseconds. -/
  ttl : ℤ
  /-- The summaries. -/
  neighbors : UnorderedMap Bytes ContentBloomTable.NeighborEntry

namespace ContentBloomTable

/-- The constructor. -/
def construct (bit_count hash_count : ℕ) (ttl : ℤ) : ContentBloomTable :=
  ⟨.construct bit_count hash_count, ttl, ∅⟩

/-- `add_local_key`. -/
def addLocalKey (t : ContentBloomTable) (key : Bytes) : ContentBloomTable :=
  { t with local_filter := t.local_filter.add key }

/-- `local_snapshot`. -/
def localSnapshot (t : ContentBloomTable) : BloomFilter := t.local_filter

/-- `update_neighbor`. -/
def updateNeighbor (t : ContentBloomTable) (now : ℤ) (addr : SockaddrIn) (filter : BloomFilter) :
    ContentBloomTable :=
  { t with neighbors := t.neighbors.insert (addrToString addr) ⟨filter, now, addr⟩ }

/-- `prune_locked`. -/
def pruneLocked (t : ContentBloomTable) (now : ℤ) : ContentBloomTable :=
  if t.ttl ≤ 0 then t
  else
    { t with
      neighbors :=
        Cxx.filter (fun _ e => !decide (now - e.updated > milliseconds t.ttl)) t.neighbors }

/-- `select_neighbor`: the first summary that matches, in the order of the loop. -/
def selectNeighbor (t : ContentBloomTable) (it : Iteration) (now : ℤ) (key : Bytes) :
    ContentBloomTable × Option SockaddrIn :=
  let t := t.pruneLocked now
  (t, ((it.order t.neighbors.entries).find? fun e => e.2.filter.maybeContains key).map fun e =>
    e.2.addr)

end ContentBloomTable

end Netos
