/-
  The snoop filter (`mem/snoop_filter.cc` 55-391).

    1. The filter: for each line the ports with a request in flight (`requested`) and those that have
       it (`holder`).  A mask is a set of ports; a panic or an assertion that fails leaves no result.
    2. The calls that the crossbar makes, in the source's order.
    3. No entry is empty between two calls (`NoNull`), so that a request that will be retried leaves
       the contents as they were (`retry_restores`).
-/
import Mathlib.Data.Finset.Basic
import Mathlib.Data.Finset.Lattice.Lemmas
import Mathlib.Data.Finset.SDiff
import Mathlib.Logic.Function.Basic

namespace Gem5Dvr.Snoop

open Function

/-- What the filter reads of a packet and of its request. -/
structure Packet where
  addr : Nat
  isSecure : Bool := false
  isUncacheable : Bool := false
  fromCache : Bool := true
  needsResponse : Bool := true
  cacheResponding : Bool := false
  isEviction : Bool := false
  isBlockCached : Bool := false
  isInvalidate : Bool := false
  isCacheMaintenance : Bool := false
  hasSharers : Bool := false
  deriving DecidableEq

structure SnoopItem where
  requested : Finset Nat := ∅
  holder : Finset Nat := ∅
  deriving DecidableEq

/-- `holder | requested`. -/
def SnoopItem.interested (sf_item : SnoopItem) : Finset Nat := sf_item.holder ∪ sf_item.requested

/-- `cpuSidePorts` are the snooping ports; `reqLookupResult` is the line that was looked up, if there
    is an entry for it, and the entry as it was. -/
structure SnoopFilter where
  cpuSidePorts : List Nat
  linesize : Nat
  cachedLocations : Nat → Option SnoopItem := fun _ => none
  reqLookupResult : Option Nat × SnoopItem := (none, {})

namespace SnoopFilter

variable (f : SnoopFilter)

/-- The address of the line; its lowest bit is `LineSecure`. -/
def line_addr (addr : Nat) (is_secure : Bool) : Nat :=
  (addr - (addr &&& (f.linesize - 1))) ||| (if is_secure = true then 1 else 0)

def lineOf (cpkt : Packet) : Nat := f.line_addr cpkt.addr cpkt.isSecure

def portToMask (port : Nat) : Finset Nat := if port ∈ f.cpuSidePorts then {port} else ∅

def maskToPortList (ports : Finset Nat) : List Nat := f.cpuSidePorts.filter (· ∈ ports)

/-- The entry of a line is written. -/
def set (line : Nat) (sf_item : SnoopItem) : SnoopFilter :=
  { f with cachedLocations := Function.update f.cachedLocations line (some sf_item) }

def eraseIfNullEntry (line : Nat) : SnoopFilter :=
  match f.cachedLocations line with
  | some sf_item =>
    if sf_item.requested ∪ sf_item.holder = ∅ then
      { f with cachedLocations := Function.update f.cachedLocations line none }
    else f
  | none => f

/-- The packet comes from a cache that the filter is to track. -/
def allocate (cpkt : Packet) (port : Nat) : Bool :=
  !cpkt.isUncacheable && decide (port ∈ f.cpuSidePorts) && cpkt.fromCache

/-- What `lookupRequest` does to the entry. -/
def requestItem (cpkt : Packet) (port : Nat) (sf_item : SnoopItem) : Option SnoopItem :=
  let req_port := f.portToMask port
  if f.allocate cpkt port = false then some sf_item
  else if cpkt.needsResponse = true then
    if cpkt.cacheResponding = false then
      if sf_item.requested ∩ req_port ≠ ∅ then none
      else some { sf_item with requested := sf_item.requested ∪ req_port }
    else if sf_item.holder ∩ req_port = ∅ then none
    else some sf_item
  else if cpkt.isEviction = true then
    if sf_item.holder ∩ req_port = ∅ then none
    else if cpkt.isBlockCached = false then
      some { sf_item with holder := sf_item.holder \ req_port }
    else some sf_item
  else none

/-- `lookupRequest`: the ports to be snooped. -/
def lookupRequest (cpkt : Packet) (port : Nat) : Option (SnoopFilter × List Nat) :=
  let line := f.lineOf cpkt
  if f.cachedLocations line = none ∧ f.allocate cpkt port = false then
    some ({ f with reqLookupResult := (none, f.reqLookupResult.2) }, [])
  else
    let sf_item := (f.cachedLocations line).getD {}
    (f.requestItem cpkt port sf_item).map fun sf_item' =>
      ({ f.set line sf_item' with reqLookupResult := (some line, sf_item) },
        f.maskToPortList (sf_item.interested \ f.portToMask port))

def finishRequest (will_retry : Bool) (addr : Nat) (is_secure : Bool) : Option SnoopFilter :=
  match f.reqLookupResult with
  | (none, _) => some f
  | (some line, retryItem) =>
    if line = f.line_addr addr is_secure then
      some (if will_retry = true then (f.set line retryItem).eraseIfNullEntry line
        else f.eraseIfNullEntry line)
    else none

/-- `lookupSnoop`: the ports to be snooped. -/
def lookupSnoop (cpkt : Packet) : SnoopFilter × List Nat :=
  let line := f.lineOf cpkt
  match f.cachedLocations line with
  | none => (f, [])
  | some sf_item =>
    (if cpkt.isInvalidate = true ∧ sf_item.requested = ∅ then
        (f.set line { sf_item with holder := ∅ }).eraseIfNullEntry line
      else f,
      f.maskToPortList sf_item.interested)

def updateSnoopResponse (cpkt : Packet) (rsp_port req_port : Nat) : Option SnoopFilter :=
  if cpkt.isUncacheable = true ∨ req_port ∉ f.cpuSidePorts then some f
  else
    let line := f.lineOf cpkt
    let sf_item := (f.cachedLocations line).getD {}
    let rsp_mask := f.portToMask rsp_port
    let req_mask := f.portToMask req_port
    if sf_item.holder ∩ rsp_mask = ∅ then none
    else if sf_item.requested ∩ req_mask = ∅ then none
    else some (f.set line
      { holder := (if cpkt.hasSharers = false then ∅ else sf_item.holder) ∪ req_mask
        requested := sf_item.requested \ req_mask })

def updateSnoopForward (cpkt : Packet) : SnoopFilter :=
  let line := f.lineOf cpkt
  match f.cachedLocations line with
  | none => f
  | some sf_item =>
    if cpkt.hasSharers = false then
      (f.set line { sf_item with holder := ∅ }).eraseIfNullEntry line
    else f

def updateResponse (cpkt : Packet) (port : Nat) : Option SnoopFilter :=
  if cpkt.isUncacheable = true ∨ port ∉ f.cpuSidePorts then some f
  else
    let line := f.lineOf cpkt
    match f.cachedLocations line with
    | none => some f
    | some sf_item =>
      let response_mask := f.portToMask port
      if sf_item.requested ∩ response_mask = ∅ then none
      else
        let sf_item := { sf_item with requested := sf_item.requested \ response_mask }
        if cpkt.isCacheMaintenance = true then
          let sf_item := if cpkt.isInvalidate = true then
            { sf_item with holder := sf_item.holder \ response_mask } else sf_item
          some ((f.set line sf_item).eraseIfNullEntry line)
        else some (f.set line { sf_item with holder := sf_item.holder ∪ response_mask })

/-- The two calls that `recvTimingReq` makes: the packet is sent on in between. -/
def request (cpkt : Packet) (port : Nat) (will_retry : Bool) : Option (SnoopFilter × List Nat) :=
  (f.lookupRequest cpkt port).bind fun x =>
    (x.1.finishRequest will_retry cpkt.addr cpkt.isSecure).map fun f' => (f', x.2)

/-! ## Entries -/

/-- The entry of a line; without one, nobody has the line. -/
def item (line : Nat) : SnoopItem := (f.cachedLocations line).getD {}

/-- No entry is empty. -/
def NoNull : Prop := ∀ line sf_item, f.cachedLocations line = some sf_item → sf_item.interested ≠ ∅

variable {f} {line line' port : Nat} {sf_item : SnoopItem} {cpkt : Packet}

@[simp] theorem set_self : (f.set line sf_item).cachedLocations line = some sf_item :=
  update_self ..

theorem set_of_ne (h : line' ≠ line) :
    (f.set line sf_item).cachedLocations line' = f.cachedLocations line' :=
  update_of_ne h ..

@[simp] theorem item_set : (f.set line sf_item).item line = sf_item := by
  simp [item]

theorem item_set_of_ne (h : line' ≠ line) : (f.set line sf_item).item line' = f.item line' := by
  simp [item, set_of_ne h]

theorem eq_empty_of_null (h : sf_item.requested ∪ sf_item.holder = ∅) : sf_item = {} := by
  obtain ⟨hreq, hhold⟩ := Finset.union_eq_empty.mp h
  cases sf_item
  cases hreq
  cases hhold
  rfl

@[simp] theorem item_erase : (f.eraseIfNullEntry line).item line' = f.item line' := by
  unfold eraseIfNullEntry
  split
  · rename_i sf_item hentry
    split
    · rename_i hnull
      by_cases heq : line' = line
      · subst heq
        simp [item, hentry, eq_empty_of_null hnull]
      · simp [item, update_of_ne heq]
    · rfl
  · rfl

@[simp] theorem cpuSidePorts_erase : (f.eraseIfNullEntry line).cpuSidePorts = f.cpuSidePorts := by
  unfold eraseIfNullEntry
  split
  · split <;> rfl
  · rfl

@[simp] theorem linesize_erase : (f.eraseIfNullEntry line).linesize = f.linesize := by
  unfold eraseIfNullEntry
  split
  · split <;> rfl
  · rfl

theorem NoNull.set (h : f.NoNull) (hitem : sf_item.interested ≠ ∅) :
    (f.set line sf_item).NoNull := by
  intro line' sf_item' hentry
  by_cases heq : line' = line
  · subst heq
    rw [set_self] at hentry
    cases hentry
    exact hitem
  · rw [set_of_ne heq] at hentry
    exact h line' sf_item' hentry

/-- An entry is written, and erased if it is empty. -/
theorem NoNull.set_erase (h : f.NoNull) : ((f.set line sf_item).eraseIfNullEntry line).NoNull := by
  unfold eraseIfNullEntry
  rw [set_self]
  dsimp only
  by_cases hnull : sf_item.requested ∪ sf_item.holder = ∅
  · rw [if_pos hnull]
    intro line' sf_item' hentry
    dsimp only at hentry
    by_cases heq : line' = line
    · subst heq
      rw [update_self] at hentry
      cases hentry
    · rw [update_of_ne heq, set_of_ne heq] at hentry
      exact h line' sf_item' hentry
  · rw [if_neg hnull]
    refine h.set fun hempty => hnull ?_
    rw [Finset.union_comm]
    exact hempty

theorem item_of_none (h : f.cachedLocations line = none) : f.item line = {} := by
  simp [item, h]

theorem item_of_some (h : f.cachedLocations line = some sf_item) : f.item line = sf_item := by
  simp [item, h]

variable {f' : SnoopFilter} {targets : List Nat}

/-- Two filters without an empty entry that agree on every line have the same contents. -/
theorem cachedLocations_ext (h : f.NoNull) (h' : f'.NoNull)
    (hitem : ∀ line, f'.item line = f.item line) : f'.cachedLocations = f.cachedLocations := by
  funext line
  have heq := hitem line
  cases hold : f.cachedLocations line with
  | none =>
    rw [item_of_none hold] at heq
    cases hnew : f'.cachedLocations line with
    | none => rfl
    | some sf_item =>
      rw [item_of_some hnew] at heq
      subst heq
      exact absurd rfl (h' line _ hnew)
  | some sf_item =>
    rw [item_of_some hold] at heq
    cases hnew : f'.cachedLocations line with
    | none =>
      rw [item_of_none hnew] at heq
      subst heq
      exact absurd rfl (h line _ hold)
    | some sf_item' =>
      rw [item_of_some hnew] at heq
      rw [heq]

/-! ## What a call does -/

/-- Two filters that differ in one line, and have no empty entry. -/
structure Touched (f f' : SnoopFilter) (line : Nat) (sf_item : SnoopItem) : Prop where
  ports : f'.cpuSidePorts = f.cpuSidePorts
  linesize : f'.linesize = f.linesize
  noNull : f'.NoNull
  here : f'.item line = sf_item
  others : ∀ line', line' ≠ line → f'.item line' = f.item line'

theorem Touched.refl (h : f.NoNull) (line : Nat) : Touched f f line (f.item line) :=
  ⟨rfl, rfl, h, rfl, fun _ _ => rfl⟩

/-- An entry is written that is not empty. -/
theorem Touched.set (h : f.NoNull) (hitem : sf_item.interested ≠ ∅) :
    Touched f (f.set line sf_item) line sf_item :=
  ⟨rfl, rfl, h.set hitem, item_set, fun _ hne => item_set_of_ne hne⟩

/-- An entry is written, and erased if it is empty. -/
theorem Touched.set_erase (h : f.NoNull) :
    Touched f ((f.set line sf_item).eraseIfNullEntry line) line sf_item :=
  ⟨cpuSidePorts_erase, linesize_erase, h.set_erase, by rw [item_erase, item_set],
    fun _ hne => by rw [item_erase, item_set_of_ne hne]⟩

theorem Touched.cached (h : f.NoNull) (ht : Touched f f' line (f.item line)) :
    f'.cachedLocations = f.cachedLocations := by
  refine cachedLocations_ext h ht.noNull fun line' => ?_
  by_cases heq : line' = line
  · rw [heq, ht.here]
  · exact ht.others line' heq

theorem set_set {sf_item' : SnoopItem} :
    (f.set line sf_item).set line sf_item' = f.set line sf_item' := by
  simp [SnoopFilter.set]

/-- The result that was looked up is no part of the contents. -/
theorem Touched.result (h : Touched f f' line sf_item) (result : Option Nat × SnoopItem) :
    Touched f { f' with reqLookupResult := result } line sf_item :=
  ⟨h.ports, h.linesize, h.noNull, h.here, h.others⟩

theorem erase_result (result : Option Nat × SnoopItem) :
    ({ f with reqLookupResult := result }).eraseIfNullEntry line =
      { f.eraseIfNullEntry line with reqLookupResult := result } := by
  unfold eraseIfNullEntry
  dsimp only
  split
  · split <;> rfl
  · rfl

theorem mem_maskToPortList {ports : Finset Nat} {p : Nat} :
    p ∈ f.maskToPortList ports ↔ p ∈ f.cpuSidePorts ∧ p ∈ ports := by
  simp [maskToPortList, List.mem_filter]

theorem mem_portToMask {p : Nat} : p ∈ f.portToMask port ↔ p = port ∧ port ∈ f.cpuSidePorts := by
  unfold portToMask
  by_cases hport : port ∈ f.cpuSidePorts
  · simp [hport]
  · simp [hport]

theorem requestItem_of_not_allocate (h : f.allocate cpkt port = false) (sf_item : SnoopItem) :
    f.requestItem cpkt port sf_item = some sf_item := if_pos h

/-- `finishRequest` for a line that has been looked up. -/
theorem finishRequest_eq {g : SnoopFilter} (hlinesize : g.linesize = f.linesize)
    (hresult : g.reqLookupResult = (some (f.lineOf cpkt), sf_item)) (will_retry : Bool) :
    g.finishRequest will_retry cpkt.addr cpkt.isSecure = some (if will_retry = true then
          (g.set (f.lineOf cpkt) sf_item).eraseIfNullEntry (f.lineOf cpkt)
        else g.eraseIfNullEntry (f.lineOf cpkt)) := by
  have hline : f.lineOf cpkt = g.line_addr cpkt.addr cpkt.isSecure := by
    rw [lineOf, line_addr, line_addr, hlinesize]
  unfold finishRequest
  rw [hresult]
  exact if_pos hline

/-- What the two calls of `recvTimingReq` do. -/
theorem request_spec (h : f.NoNull) {will_retry : Bool}
    (hrun : f.request cpkt port will_retry = some (f', targets)) :
    ∃ sf_item', f.requestItem cpkt port (f.item (f.lineOf cpkt)) = some sf_item' ∧
      Touched f f' (f.lineOf cpkt)
        (if will_retry = true then f.item (f.lineOf cpkt) else sf_item') ∧
      targets = f.maskToPortList ((f.item (f.lineOf cpkt)).interested \ f.portToMask port) := by
  obtain ⟨⟨g, snooped⟩, hlookup, hfinish⟩ := Option.bind_eq_some_iff.mp hrun
  obtain ⟨g', hg', heq⟩ := Option.map_eq_some_iff.mp hfinish
  cases heq
  unfold lookupRequest at hlookup
  by_cases hmiss : f.cachedLocations (f.lineOf cpkt) = none ∧ f.allocate cpkt port = false
  · rw [if_pos hmiss] at hlookup
    cases hlookup
    cases hg'
    refine ⟨_, requestItem_of_not_allocate hmiss.2 _, ?_, ?_⟩
    · rw [ite_self]
      exact (Touched.refl h _).result _
    · rw [item_of_none hmiss.1]
      simp [maskToPortList, SnoopItem.interested]
  · rw [if_neg hmiss] at hlookup
    obtain ⟨sf_item', hitem, heq⟩ := Option.map_eq_some_iff.mp hlookup
    cases heq
    refine ⟨sf_item', hitem, ?_, rfl⟩
    rw [finishRequest_eq rfl rfl] at hg'
    cases hg'
    cases will_retry with
    | true =>
      change Touched f (({ (f.set (f.lineOf cpkt) sf_item').set (f.lineOf cpkt)
        (f.item (f.lineOf cpkt)) with reqLookupResult := _ }).eraseIfNullEntry _) _ _
      rw [erase_result, set_set]
      exact (Touched.set_erase h).result _
    | false =>
      change Touched f (({ f.set (f.lineOf cpkt) sf_item' with
        reqLookupResult := _ }).eraseIfNullEntry _) _ _
      rw [erase_result]
      exact (Touched.set_erase h).result _

/-- A request that will be retried leaves the contents as they were. -/
theorem retry_restores (h : f.NoNull) (hrun : f.request cpkt port true = some (f', targets)) :
    f'.cachedLocations = f.cachedLocations := by
  obtain ⟨_, -, htouched, -⟩ := request_spec h hrun
  exact htouched.cached h

/-- After a lookup that has a result, the request can be finished. -/
theorem finishRequest_isSome {g : SnoopFilter}
    (hlookup : f.lookupRequest cpkt port = some (g, targets)) (will_retry : Bool) :
    ∃ f', f.request cpkt port will_retry = some (f', targets) := by
  unfold request
  rw [hlookup, Option.bind_some]
  unfold lookupRequest at hlookup
  dsimp only at hlookup
  split at hlookup
  · cases hlookup
    exact ⟨_, rfl⟩
  · obtain ⟨sf_item', -, heq⟩ := Option.map_eq_some_iff.mp hlookup
    cases heq
    rw [finishRequest_eq rfl rfl]
    exact ⟨_, rfl⟩

/-- `lookupSnoop`. -/
theorem lookupSnoop_spec (h : f.NoNull) : Touched f (f.lookupSnoop cpkt).1 (f.lineOf cpkt)
      (if cpkt.isInvalidate = true ∧ (f.item (f.lineOf cpkt)).requested = ∅ then
        { f.item (f.lineOf cpkt) with holder := ∅ } else f.item (f.lineOf cpkt)) ∧
    (f.lookupSnoop cpkt).2 = f.maskToPortList (f.item (f.lineOf cpkt)).interested := by
  unfold lookupSnoop
  dsimp only
  cases hentry : f.cachedLocations (f.lineOf cpkt) with
  | none =>
    rw [item_of_none hentry]
    constructor
    · rw [ite_self]
      have hsame := Touched.refl h (f.lineOf cpkt)
      rw [item_of_none hentry] at hsame
      exact hsame
    · simp [maskToPortList, SnoopItem.interested]
  | some sf_item =>
    rw [item_of_some hentry]
    dsimp only
    refine ⟨?_, rfl⟩
    split
    · exact Touched.set_erase h
    · have hsame := Touched.refl h (f.lineOf cpkt)
      rw [item_of_some hentry] at hsame
      exact hsame

/-- `updateSnoopForward`. -/
theorem updateSnoopForward_spec (h : f.NoNull) :
    Touched f (f.updateSnoopForward cpkt) (f.lineOf cpkt)
      (if cpkt.hasSharers = false then { f.item (f.lineOf cpkt) with holder := ∅ }
        else f.item (f.lineOf cpkt)) := by
  have hsame := Touched.refl h (f.lineOf cpkt)
  unfold updateSnoopForward
  dsimp only
  cases hentry : f.cachedLocations (f.lineOf cpkt) with
  | none =>
    rw [item_of_none hentry] at hsame ⊢
    rw [ite_self]
    exact hsame
  | some sf_item =>
    rw [item_of_some hentry] at hsame ⊢
    dsimp only
    split
    · exact Touched.set_erase h
    · exact hsame

/-- `updateSnoopResponse` of a request that is tracked. -/
theorem updateSnoopResponse_spec (h : f.NoNull) {rsp_port req_port : Nat}
    (hcacheable : cpkt.isUncacheable = false) (hport : req_port ∈ f.cpuSidePorts)
    (hrun : f.updateSnoopResponse cpkt rsp_port req_port = some f') :
    Touched f f' (f.lineOf cpkt)
      { holder := (if cpkt.hasSharers = false then ∅ else (f.item (f.lineOf cpkt)).holder) ∪
          f.portToMask req_port
        requested := (f.item (f.lineOf cpkt)).requested \ f.portToMask req_port } := by
  unfold updateSnoopResponse at hrun
  rw [if_neg (by simp [hcacheable, hport])] at hrun
  dsimp only at hrun
  split at hrun
  · cases hrun
  · split at hrun
    · cases hrun
    · cases hrun
      refine Touched.set h fun hempty => ?_
      have hmine : req_port ∈ f.portToMask req_port := mem_portToMask.mpr ⟨rfl, hport⟩
      have hin : req_port ∈ (∅ : Finset Nat) := by
        rw [← hempty]
        exact Finset.mem_union_left _ (Finset.mem_union_right _ hmine)
      exact absurd hin (Finset.notMem_empty _)

/-- `updateResponse` of a request that is tracked. -/
theorem updateResponse_spec (h : f.NoNull)
    (hcacheable : cpkt.isUncacheable = false) (hport : port ∈ f.cpuSidePorts)
    (hrequested : port ∈ (f.item (f.lineOf cpkt)).requested)
    (hrun : f.updateResponse cpkt port = some f') :
    Touched f f' (f.lineOf cpkt)
      { holder := if cpkt.isCacheMaintenance = true then
            (if cpkt.isInvalidate = true then (f.item (f.lineOf cpkt)).holder \ f.portToMask port
              else (f.item (f.lineOf cpkt)).holder)
          else (f.item (f.lineOf cpkt)).holder ∪ f.portToMask port
        requested := (f.item (f.lineOf cpkt)).requested \ f.portToMask port } := by
  unfold updateResponse at hrun
  rw [if_neg (by simp [hcacheable, hport])] at hrun
  dsimp only at hrun
  cases hentry : f.cachedLocations (f.lineOf cpkt) with
  | none =>
    rw [item_of_none hentry] at hrequested
    exact absurd hrequested (Finset.notMem_empty _)
  | some sf_item =>
    rw [hentry] at hrun
    dsimp only at hrun
    rw [item_of_some hentry]
    split at hrun
    · cases hrun
    · by_cases hclean : cpkt.isCacheMaintenance = true
      · rw [if_pos hclean] at hrun ⊢
        cases hrun
        by_cases hinv : cpkt.isInvalidate = true
        · simp only [if_pos hinv]
          exact Touched.set_erase h
        · simp only [if_neg hinv]
          exact Touched.set_erase h
      · rw [if_neg hclean] at hrun ⊢
        cases hrun
        refine Touched.set h fun hempty => ?_
        have hmine : port ∈ f.portToMask port := mem_portToMask.mpr ⟨rfl, hport⟩
        have hin : port ∈ (∅ : Finset Nat) := by
          rw [← hempty]
          exact Finset.mem_union_left _ (Finset.mem_union_right _ hmine)
        exact absurd hin (Finset.notMem_empty _)

end SnoopFilter

end Gem5Dvr.Snoop
