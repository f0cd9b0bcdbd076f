/-
  Set difference of address ranges (`AddrRange::exclude`).

    1. The sort by `operator<`, the sweep and the two forms of `exclude`, as the header has them.
    2. One sweep: what it returns lies from `next_start` on, in order, and holds the addresses left
       of `r` that no exclusion has (`excludeLoop_spec`).
    3. The list form, one base range after the other.

  The crux is that the exclusions are sorted by start only.  When the sweep closes a range at
  `e.start()` every later exclusion starts there or above, so none cuts into what was closed.
-/
import Gem5Dvr.AddrRangeMap
import Gem5Dvr.AddrRangeTiling

namespace Gem5Dvr.AddrRange

open List

/-! ## The code -/

/-- `AddrRange(_start, _end)`. -/
def ofBounds (_start _end : Addr) : AddrRange := ⟨_start, _end, [], 0, fits_nil⟩

/-- `std::list::sort`, which is stable. -/
def sort (ranges : List AddrRange) : List AddrRange := ranges.mergeSort fun s r => !r.lt s

/-- The loop of `exclude` from `next_start` on, and the range after it. -/
def excludeLoop (r : AddrRange) : List AddrRange → Addr → Option (List AddrRange)
  | [], next_start =>
    some (if next_start.toNat < r._end.toNat then [ofBounds next_start r._end] else [])
  | e :: es, next_start =>
    if e.interleaved then none
    else do
      if !(← r.intersects e) then excludeLoop r es next_start
      else if e._start.toNat ≤ next_start.toNat then
        if e._end.toNat < r._end.toNat then
          excludeLoop r es (if next_start.toNat < e._end.toNat then e._end else next_start)
        else some []
      else if e._end.toNat < r._end.toNat then
        (excludeLoop r es e._end).map (ofBounds next_start e._start :: ·)
      else some [ofBounds next_start e._start]

/-- `r.exclude(exclude_ranges)`, `none` where an assertion fails. -/
def exclude (r : AddrRange) (exclude_ranges : List AddrRange) : Option (List AddrRange) :=
  if r.interleaved then none else excludeLoop r (sort exclude_ranges) r._start

/-- `exclude(base, to_exclude)`. -/
def excludeAll (base to_exclude : List AddrRange) : Option (List AddrRange) :=
  (base.mapM (exclude · (sort to_exclude))).map flatten

/-! ## What is to come out -/

/-- A valid range without interleaving. -/
def Plain (r : AddrRange) : Prop := r.interleaved = false ∧ r._start.toNat ≤ r._end.toNat

instance (r : AddrRange) : Decidable (Plain r) := inferInstanceAs (Decidable (_ ∧ _))

/-- Each range ends before the later ones start. -/
def Ascending (ranges : List AddrRange) : Prop :=
  ranges.Pairwise fun p q => p._end.toNat ≤ q._start.toNat

def Disjoint (ranges : List AddrRange) : Prop :=
  ranges.Pairwise fun p q => ∀ a, InRange p a → ¬ InRange q a

/-- `out` is the difference of `base` and `ex`, as non-empty disjoint ranges. -/
structure Difference (base ex out : List AddrRange) : Prop where
  nonempty : ∀ p ∈ out, p.interleaved = false ∧ p._start.toNat < p._end.toNat
  disjoint : Disjoint out
  union : ∀ a, (∃ p ∈ out, InRange p a) ↔ (∃ r ∈ base, InRange r a) ∧ ∀ e ∈ ex, ¬ InRange e a

/-! ## The sort -/

/-- Not `r < s`, the order in which the sort leaves two ranges. -/
theorem not_lt_iff (s r : AddrRange) : (!r.lt s) = true ↔ s._start.toNat < r._start.toNat ∨
    s._start.toNat = r._start.toNat ∧ (r.interleaved = true → s.interleaved = true ∧
      s.intlvMatch.toNat ≤ r.intlvMatch.toNat) := by
  simp only [lt, ne_eq, ← BitVec.toNat_inj]
  by_cases heq : r._start.toNat = s._start.toNat
  · rw [if_neg (not_not.mpr heq)]
    cases hs : s.interleaved <;> cases hr : r.interleaved <;> simp [heq]
  · rw [if_pos heq, Bool.not_eq_true', decide_eq_false_iff_not]
    omega

theorem sort_start (ranges : List AddrRange) :
    (sort ranges).Pairwise fun s r => s._start.toNat ≤ r._start.toNat := by
  have htrans : ∀ a b c : AddrRange, (!b.lt a) = true → (!c.lt b) = true → (!c.lt a) = true := by
    intro a b c hab hbc
    rw [not_lt_iff] at *
    grind
  have htotal : ∀ a b : AddrRange, (!b.lt a || !a.lt b) = true := by
    intro a b
    rw [Bool.or_eq_true, not_lt_iff, not_lt_iff]
    grind
  refine (pairwise_mergeSort htrans htotal ranges).imp fun {s r} h => ?_
  rw [not_lt_iff] at h
  omega

theorem mem_sort {ranges : List AddrRange} {r : AddrRange} : r ∈ sort ranges ↔ r ∈ ranges :=
  (mergeSort_perm _ _).mem_iff

/-! ## One sweep -/

theorem intersects_plain {r e : AddrRange} (hr : r.interleaved = false)
    (he : e.interleaved = false) : r.intersects e =
      some (decide (r._start.toNat < e._end.toNat ∧ e._start.toNat < r._end.toNat)) := by
  unfold intersects
  by_cases h : e._end.toNat ≤ r._start.toNat ∨ r._end.toNat ≤ e._start.toNat
  · rw [if_pos h, decide_eq_false (by omega)]
  · rw [if_neg h, decide_eq_true (by omega)]
    simp [hr, he]

/-- What a sweep from `next_start` returns. -/
structure Swept (r : AddrRange) (next_start : Addr) (es out : List AddrRange) : Prop where
  inside : ∀ p ∈ out, p.interleaved = false ∧ p._start.toNat < p._end.toNat ∧
    next_start.toNat ≤ p._start.toNat
  ascending : Ascending out
  union : ∀ a, (∃ p ∈ out, InRange p a) ↔
    (next_start.toNat ≤ a.toNat ∧ a.toNat < r._end.toNat) ∧ ∀ e ∈ es, ¬ InRange e a

theorem Swept.nil {r : AddrRange} {next_start : Addr} (h : r._end.toNat ≤ next_start.toNat)
    (es : List AddrRange) : Swept r next_start es [] :=
  ⟨by simp, Pairwise.nil, fun a => by simp; omega⟩

/-- A range is closed before `e`; what is excluded later starts no lower than `e`. -/
theorem Swept.push {r e : AddrRange} {next_start : Addr} {es out : List AddrRange}
    (h : Swept r e._end es out) (hlt : next_start.toNat < e._start.toNat)
    (hvalid : e._start.toNat ≤ e._end.toNat) (hin : e._start.toNat < r._end.toNat)
    (hfirst : ∀ e' ∈ es, e._start.toNat ≤ e'._start.toNat) :
    Swept r next_start (e :: es) (ofBounds next_start e._start :: out) := by
  refine ⟨?_, pairwise_cons.mpr ⟨fun p hp => ?_, h.ascending⟩, fun a => ?_⟩
  · refine forall_mem_cons.mpr ⟨⟨rfl, hlt, Nat.le_refl _⟩, fun p hp => ?_⟩
    obtain ⟨hplain, hne, hle⟩ := h.inside p hp
    exact ⟨hplain, hne, by omega⟩
  · exact Nat.le_trans hvalid (h.inside p hp).2.2
  · have hlater : a.toNat < e._start.toNat → ∀ e' ∈ es, ¬ InRange e' a := fun ha e' he' hr =>
      absurd (Nat.lt_of_lt_of_le ha (hfirst e' he')) (Nat.not_lt.mpr hr.1)
    simp only [mem_cons, exists_eq_or_imp, forall_eq_or_imp, h.union a]
    show (next_start.toNat ≤ a.toNat ∧ a.toNat < e._start.toNat) ∨ _ ↔
      _ ∧ ¬ (e._start.toNat ≤ a.toNat ∧ a.toNat < e._end.toNat) ∧ _
    constructor
    · rintro (⟨hge, hlt⟩ | ⟨⟨hge, hlt⟩, hout⟩)
      · exact ⟨⟨hge, by omega⟩, by omega, hlater hlt⟩
      · exact ⟨⟨by omega, hlt⟩, by omega, hout⟩
    · rintro ⟨⟨hge, hlt⟩, he, hout⟩
      rcases Nat.lt_or_ge a.toNat e._start.toNat with hlow | hhigh
      · exact .inl ⟨hge, hlow⟩
      · exact .inr ⟨⟨by omega, hlt⟩, hout⟩

theorem excludeLoop_spec {r : AddrRange} (hr : r.interleaved = false) {es : List AddrRange}
    (hes : ∀ e ∈ es, Plain e) (hsorted : es.Pairwise fun s r => s._start.toNat ≤ r._start.toNat)
    {next_start : Addr} (hnext : r._start.toNat ≤ next_start.toNat)
    (hend : next_start.toNat ≤ r._end.toNat) :
    ∃ out, excludeLoop r es next_start = some out ∧ Swept r next_start es out := by
  induction es generalizing next_start with
  | nil =>
    refine ⟨_, rfl, ?_⟩
    split
    · rename_i hlt
      refine ⟨by simpa [ofBounds] using ⟨rfl, hlt⟩, pairwise_singleton _ _, fun a => ?_⟩
      simp [InRange, ofBounds]
    · rename_i hge
      exact Swept.nil (by omega) _
  | cons e es ih =>
    obtain ⟨hfirst, hsorted⟩ := pairwise_cons.mp hsorted
    obtain ⟨⟨hplain, hvalid⟩, hes⟩ := forall_mem_cons.mp hes
    have ih := fun (n : Addr) => @ih hes hsorted n
    -- where nothing is closed, the sweep goes on at the first address left
    have skip : ∀ {n : Addr} {out : List AddrRange}, Swept r n es out →
        next_start.toNat ≤ n.toNat → (∀ a : Addr, next_start.toNat ≤ a.toNat →
          a.toNat < r._end.toNat → (¬ InRange e a ↔ n.toNat ≤ a.toNat)) →
        Swept r next_start (e :: es) out := by
      intro n out h hle hleft
      refine ⟨fun p hp => ?_, h.ascending, fun a => ?_⟩
      · obtain ⟨hplain, hne, hge⟩ := h.inside p hp
        exact ⟨hplain, hne, by omega⟩
      · rw [h.union a, forall_mem_cons]
        have hleft := hleft a
        constructor
        · rintro ⟨⟨hge, hlt⟩, hout⟩
          exact ⟨⟨by omega, hlt⟩, (hleft (by omega) hlt).mpr hge, hout⟩
        · rintro ⟨⟨hge, hlt⟩, he, hout⟩
          exact ⟨⟨(hleft hge hlt).mp he, hlt⟩, hout⟩
    unfold InRange at skip
    rw [excludeLoop, hplain, intersects_plain hr hplain]
    simp only [Bool.false_eq_true, if_false, Option.bind_eq_bind, Option.bind_some,
      Bool.not_eq_true', decide_eq_false_iff_not]
    split
    · obtain ⟨out, hout, h⟩ := ih _ hnext hend
      exact ⟨out, hout, skip h (Nat.le_refl _) fun a _ _ => by omega⟩
    · rename_i hcut
      split
      · rename_i hle
        split
        · rename_i hlt
          obtain ⟨out, hout, h⟩ := ih (if next_start.toNat < e._end.toNat then e._end
            else next_start) (by split <;> omega) (by split <;> omega)
          exact ⟨out, hout, skip h (by split <;> omega) fun a _ _ => by split <;> omega⟩
        · exact ⟨[], rfl, skip (Swept.nil (by omega : r._end.toNat ≤ e._end.toNat) es) (by omega)
            fun a _ _ => by omega⟩
      · split
        · obtain ⟨out, hout, h⟩ := ih e._end (by omega) (by omega)
          rw [hout]
          exact ⟨_, rfl, h.push (by omega) hvalid (by omega) hfirst⟩
        · exact ⟨_, rfl, (Swept.nil (by omega) es).push (by omega) hvalid (by omega) hfirst⟩

/-! ## Both forms -/

theorem exclude_spec {r : AddrRange} (hr : Plain r) {ex : List AddrRange}
    (hex : ∀ e ∈ ex, Plain e) :
    ∃ out, r.exclude ex = some out ∧ Difference [r] ex out ∧ Ascending out ∧
      ∀ p ∈ out, r._start.toNat ≤ p._start.toNat ∧ p._end.toNat ≤ r._end.toNat := by
  obtain ⟨out, hout, h⟩ := excludeLoop_spec hr.1 (fun e he => hex e (mem_sort.mp he))
    (sort_start ex) (Nat.le_refl _) hr.2
  have hdisjoint : Disjoint out := h.ascending.imp fun hle a hp hq =>
    absurd (Nat.lt_of_lt_of_le hp.2 hle) (Nat.not_lt.mpr hq.1)
  refine ⟨out, ?_, ⟨fun p hp => ⟨(h.inside p hp).1, (h.inside p hp).2.1⟩, hdisjoint,
    fun a => ?_⟩, h.ascending, fun p hp => ?_⟩
  · rw [exclude, hr.1]
    exact hout
  · rw [h.union a]
    simp [mem_sort, InRange]
  · obtain ⟨-, hne, hge⟩ := h.inside p hp
    -- the last address of `p` is one of `r`
    have hlast : InRange p (p._end - 1#64) := by
      have := p._end.isLt
      simp only [InRange, BitVec.toNat_sub, BitVec.toNat_ofNat]
      omega
    have hr := ((h.union _).mp ⟨p, hp, hlast⟩).1.2
    have := p._end.isLt
    simp only [BitVec.toNat_sub, BitVec.toNat_ofNat] at hr
    exact ⟨hge, by omega⟩

/-- The list form returns the differences one after the other. -/
theorem excludeAll_spec {base ex : List AddrRange} (hbase : ∀ r ∈ base, Plain r)
    (hex : ∀ e ∈ ex, Plain e) (hdisjoint : Disjoint base) :
    ∃ out, excludeAll base ex = some out ∧ Difference base ex out ∧
      (∀ q ∈ out, ∃ r ∈ base, r._start.toNat ≤ q._start.toNat) ∧
      (Ascending base → Ascending out) := by
  induction base with
  | nil => exact ⟨[], rfl, ⟨by simp, Pairwise.nil, by simp⟩, by simp, fun _ => Pairwise.nil⟩
  | cons r base ih =>
    obtain ⟨hr, hbase⟩ := forall_mem_cons.mp hbase
    obtain ⟨hapart, hdisjoint⟩ := pairwise_cons.mp hdisjoint
    obtain ⟨rest, hrest, hdiff, hfrom, hasc⟩ := ih hbase hdisjoint
    obtain ⟨outs, houts, rfl⟩ := Option.map_eq_some_iff.mp hrest
    have hex' : ∀ e ∈ sort ex, Plain e := fun e he => hex e (mem_sort.mp he)
    obtain ⟨out, hout, hdiff1, hasc1, hin⟩ := exclude_spec hr hex'
    have hsplit : ∀ a, (∃ p ∈ out, InRange p a) ↔ InRange r a ∧ ∀ e ∈ ex, ¬ InRange e a := by
      simpa [mem_sort] using hdiff1.union
    refine ⟨out ++ outs.flatten, ?_, ⟨?_, ?_, fun a => ?_⟩, ?_, fun h => ?_⟩
    · rw [excludeAll, mapM_cons, hout]
      simp [houts]
    · exact forall_mem_append.mpr ⟨hdiff1.nonempty, hdiff.nonempty⟩
    · refine pairwise_append.mpr ⟨hdiff1.disjoint, hdiff.disjoint, fun p hp q hq a hpa hqa => ?_⟩
      obtain ⟨⟨r', hr', hr'a⟩, -⟩ := (hdiff.union a).mp ⟨q, hq, hqa⟩
      exact hapart r' hr' a ((hsplit a).mp ⟨p, hp, hpa⟩).1 hr'a
    · simp only [mem_append, or_and_right, exists_or, hsplit a, hdiff.union a, mem_cons,
        exists_eq_left]
    · refine forall_mem_append.mpr ⟨fun p hp => ⟨r, mem_cons_self, (hin p hp).1⟩, fun q hq => ?_⟩
      obtain ⟨r', hr', hle⟩ := hfrom q hq
      exact ⟨r', mem_cons_of_mem _ hr', hle⟩
    · obtain ⟨hbefore, h⟩ := pairwise_cons.mp h
      refine pairwise_append.mpr ⟨hasc1, hasc h, fun p hp q hq => ?_⟩
      obtain ⟨r', hr', hle⟩ := hfrom q hq
      exact Nat.le_trans (hin p hp).2 (Nat.le_trans (hbefore r' hr') hle)

/-- **`exclude` is the set difference**, for one range in ascending order.  For a list of disjoint
    ranges the pieces come in the order of the list, so they ascend where the list does. -/
theorem exclude_exact :
    (∀ r ex, Plain r → (∀ e ∈ ex, Plain e) →
      ∃ out, r.exclude ex = some out ∧ Difference [r] ex out ∧ Ascending out) ∧
    ∀ base ex, (∀ r ∈ base, Plain r) → (∀ e ∈ ex, Plain e) → Disjoint base →
      ∃ out, excludeAll base ex = some out ∧ Difference base ex out ∧
        (Ascending base → Ascending out) := by
  refine ⟨fun r ex hr hex => ?_, fun base ex hbase hex hdisjoint => ?_⟩
  · obtain ⟨out, hout, hdiff, hasc, -⟩ := exclude_spec hr hex
    exact ⟨out, hout, hdiff, hasc⟩
  · obtain ⟨out, hout, hdiff, -, hasc⟩ := excludeAll_spec hbase hex hdisjoint
    exact ⟨out, hout, hdiff, hasc⟩

/-- A range minus a list with an overlap, an empty range inside and one past the end; and two ranges
    minus one that meets both. -/
theorem exclude_exact_three : (∃ out, (ofBounds 0 100).exclude [ofBounds 40 60, ofBounds 20 50,
      ofBounds 70 70, ofBounds 90 200] = some out ∧ Ascending out) ∧
    ∃ out, excludeAll [ofBounds 0 10, ofBounds 20 30] [ofBounds 5 25] = some out ∧
      Difference [ofBounds 0 10, ofBounds 20 30] [ofBounds 5 25] out ∧ Ascending out := by
  obtain ⟨hone, hlist⟩ := exclude_exact
  constructor
  · obtain ⟨out, hout, -, hasc⟩ := hone (ofBounds 0 100) [ofBounds 40 60, ofBounds 20 50,
      ofBounds 70 70, ofBounds 90 200] (by decide) (by decide)
    exact ⟨out, hout, hasc⟩
  · have hdisjoint : Disjoint [ofBounds 0 10, ofBounds 20 30] := by
      refine pairwise_pair.mpr fun a h h' => ?_
      have hhigh : a.toNat < 10 := h.2
      have hlow : 20 ≤ a.toNat := h'.1
      omega
    obtain ⟨out, hout, hdiff, hasc⟩ := hlist [ofBounds 0 10, ofBounds 20 30] [ofBounds 5 25]
      (by decide) (by decide) hdisjoint
    exact ⟨out, hout, hdiff, hasc (pairwise_pair.mpr (by decide))⟩

/-- Base ranges in descending order, and nothing excluded. -/
theorem excludeAll_descends : Disjoint [ofBounds 10 20, ofBounds 0 5] ∧
    ∃ out, excludeAll [ofBounds 10 20, ofBounds 0 5] [] = some out ∧ ¬ Ascending out := by
  refine ⟨pairwise_pair.mpr fun a h h' => ?_, [ofBounds 10 20, ofBounds 0 5], ?_, ?_⟩
  · have hlow : 10 ≤ a.toNat := h.1
    have hhigh : a.toNat < 5 := h'.2
    omega
  · have hsort : sort [] = [] := by simp [sort]
    rw [excludeAll, hsort]
    have hnone : ∀ r : AddrRange, exclude r [] = if r.interleaved then none else
        some (if r._start.toNat < r._end.toNat then [ofBounds r._start r._end] else []) := by
      intro r
      rw [exclude, hsort, excludeLoop]
    simp only [mapM_cons, mapM_nil, hnone]
    decide
  · exact fun h => absurd (pairwise_pair.mp h) (by decide)

end Gem5Dvr.AddrRange
