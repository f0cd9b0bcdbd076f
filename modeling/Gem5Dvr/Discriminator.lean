/-
  The predicates a launch gives to the lane predicate tracker (`CPU::launchDVRStridePrefetches`,
  `cpu/o3/cpu.cc` 3099-3148).

  A relation is trained with the bits its source values had in common: a stable mask, and the pattern
  on it.  With several relations each keeps only the bits that separate it from some other one.

  1. **Program** — `collect` and `discriminate`, and the tracker they begin.

  2. **The crux** — a value that is consistent with a relation satisfies its predicate, as the bits
     kept are stable ones.  So it is given to another relation only where the relation keeps NO bit
     and the tracker passes over it.  And then it happens (`exists_rival`): of at most four relations
     one stays silent, so among the others one differs from all that keep a bit, and a value can
     follow that one wherever the silent relation leaves it free.
-/
import Gem5Dvr.AddressRelation
import Gem5Dvr.LanePredicate

namespace Gem5Dvr.LanePredicate

open List
open BitVec (eq_of_getLsbD_eq getLsbD_and)

open AddressRelation (DVRAddressRelation)

/-! ## The program -/

/-- The trained relations of a trigger, up to `MaxRelations`; a lookup may find none. -/
def collect (found : List (Option DVRAddressRelation)) : List DVRAddressRelation :=
  ((found.filterMap id).filter fun relation => relation.trained).take MaxPaths

/-- The stable mask of each relation, zero beyond them. -/
def stableMasks (relations : List DVRAddressRelation) (k : Fin MaxPaths) : BitVec 64 :=
  match relations[k.val]? with
  | some relation => relation.stableMask
  | none => 0

def stablePatterns (relations : List DVRAddressRelation) (k : Fin MaxPaths) : BitVec 64 :=
  match relations[k.val]? with
  | some relation => relation.pattern &&& relation.stableMask
  | none => 0

/-- The bits stable for both on which two relations differ. -/
def difference (masks patterns : Fin MaxPaths → BitVec 64) (lhs rhs : Fin MaxPaths) : BitVec 64 :=
  masks lhs &&& masks rhs &&& (patterns lhs ^^^ patterns rhs)

/-- The bits that separate a relation from some other one. -/
def discriminating (relation_count : Nat) (masks patterns : Fin MaxPaths → BitVec 64)
    (lhs : Fin MaxPaths) : BitVec 64 :=
  ((finRange MaxPaths).filter fun rhs => rhs.val < relation_count).foldl
    (fun bits rhs => if lhs = rhs then bits else bits ||| difference masks patterns lhs rhs) 0

/-- The tracker of a launch; a single relation needs no predicate. -/
def predicate (lanes : Nat) (found : List (Option DVRAddressRelation)) : Option Tracker :=
  let relations := collect found
  let masks := stableMasks relations
  let patterns := stablePatterns relations
  if 1 < relations.length then
    some (Tracker.begin lanes relations.length (fun lhs => if lhs.val < relations.length then
        discriminating relations.length masks patterns lhs else masks lhs)
      (fun lhs => if lhs.val < relations.length then
        patterns lhs &&& discriminating relations.length masks patterns lhs else patterns lhs))
  else none

/-! ## Specification -/

/-- The value has the pattern of the relation on its stable mask. -/
def Consistent (relation : DVRAddressRelation) (value : BitVec 64) : Prop :=
  value &&& relation.stableMask = relation.pattern &&& relation.stableMask

instance (relation : DVRAddressRelation) (value : BitVec 64) : Decidable (Consistent relation value) :=
  inferInstanceAs (Decidable (_ = _))

/-- Two relations differ on a bit stable for both. -/
def Differ (r r' : DVRAddressRelation) : Prop :=
  r.stableMask &&& r'.stableMask &&& (r.pattern ^^^ r'.pattern) ≠ 0

instance (r r' : DVRAddressRelation) : Decidable (Differ r r') := inferInstanceAs (Decidable (_ ≠ _))

/-- No value consistent with the `i`-th relation is selected for another one, in any sequence of
    responses. -/
def Sound (found : List (Option DVRAddressRelation)) (i : Fin MaxPaths) : Prop :=
  ∀ relation, (collect found)[i.val]? = some relation → ∀ value, Consistent relation value →
    ∀ lanes t, predicate lanes found = some t → ∀ calls (lane : Lane),
      firstValue calls lane = some value → ∀ j, j ≠ i → lane ∉ ((run t calls).selected j).members

/-! ## The bits kept -/

section bits

variable {n : Nat} {masks patterns : Fin MaxPaths → BitVec 64}

theorem getLsbD_difference (lhs rhs : Fin MaxPaths) (b : Nat) :
    (difference masks patterns lhs rhs).getLsbD b = true ↔ (masks lhs).getLsbD b = true ∧
      (masks rhs).getLsbD b = true ∧ (patterns lhs).getLsbD b ≠ (patterns rhs).getLsbD b := by
  simp [difference, and_assoc]

theorem difference_comm (lhs rhs : Fin MaxPaths) :
    difference masks patterns lhs rhs = difference masks patterns rhs lhs := by
  rw [difference, difference, BitVec.and_comm (masks lhs), BitVec.xor_comm (patterns lhs)]

theorem difference_self (k : Fin MaxPaths) : difference masks patterns k k = 0 := by
  simp [difference]

/-- A bit is kept for a relation when another one has it stable and different. -/
theorem getLsbD_discriminating (lhs : Fin MaxPaths) (b : Nat) :
    (discriminating n masks patterns lhs).getLsbD b = true ↔
      ∃ rhs, rhs.val < n ∧ (difference masks patterns lhs rhs).getLsbD b = true := by
  have hfold : ∀ (l : List (Fin MaxPaths)) (bits : BitVec 64),
      (l.foldl (fun bits rhs => if lhs = rhs then bits
        else bits ||| difference masks patterns lhs rhs) bits).getLsbD b = true ↔
      bits.getLsbD b = true ∨ ∃ rhs ∈ l, (difference masks patterns lhs rhs).getLsbD b = true := by
    intro l
    induction l with
    | nil => simp
    | cons rhs l ih =>
      intro bits
      rw [foldl_cons, ih]
      by_cases heq : lhs = rhs
      · -- a relation does not differ from itself
        subst heq
        simp [difference_self]
      · simp [heq, or_assoc]
  rw [discriminating, hfold]
  simp

theorem eq_zero_iff (x : BitVec 64) : x = 0 ↔ ∀ b, ¬ x.getLsbD b = true := by
  constructor
  · rintro rfl b
    simp
  · intro h
    apply eq_of_getLsbD_eq
    intro b hb
    rw [Bool.eq_false_iff.mpr (h b)]
    simp

theorem discriminating_eq_zero (lhs : Fin MaxPaths) : discriminating n masks patterns lhs = 0 ↔
      ∀ rhs, rhs.val < n → difference masks patterns lhs rhs = 0 := by
  simp only [eq_zero_iff, getLsbD_discriminating]
  constructor
  · intro h rhs hrhs b hbit
    exact h b ⟨rhs, hrhs, hbit⟩
  · rintro h b ⟨rhs, hrhs, hbit⟩
    exact h rhs hrhs b hbit

/-- The bits kept are stable. -/
theorem discriminating_stable (lhs : Fin MaxPaths) :
    masks lhs &&& discriminating n masks patterns lhs = discriminating n masks patterns lhs := by
  apply eq_of_getLsbD_eq
  intro b hb
  rw [getLsbD_and, Bool.and_eq_right_iff_imp]
  intro hbit
  obtain ⟨rhs, -, hdiff⟩ := (getLsbD_discriminating lhs b).mp hbit
  exact ((getLsbD_difference lhs rhs b).mp hdiff).1

/-- A value that has the pattern on the stable bits has it on the bits kept. -/
theorem consistent_kept {value : BitVec 64} {k : Fin MaxPaths}
    (h : value &&& masks k = patterns k) :
    value &&& discriminating n masks patterns k = patterns k &&& discriminating n masks patterns k := by
  conv_lhs => rw [← discriminating_stable k, ← BitVec.and_assoc, h]

end bits

/-! ## A silent relation -/

section rival

variable {n : Nat} {masks patterns : Fin MaxPaths → BitVec 64}

/-- Beside three of four numbers there is one. -/
theorem fourth : ∀ {i a b c x : Fin MaxPaths}, a ≠ i → b ≠ i → c ≠ i → a ≠ b → c ≠ a → c ≠ b →
    x ≠ i → x ≠ a → x ≠ b → x = c := by
  decide

/-- Some relation that keeps a bit differs from all the others that do, when one of them keeps
    none. -/
theorem exists_rival {i a : Fin MaxPaths} (hi : discriminating n masks patterns i = 0)
    (hin : i.val < n) (ha : discriminating n masks patterns a ≠ 0) (han : a.val < n) :
    ∃ k : Fin MaxPaths, k.val < n ∧ discriminating n masks patterns k ≠ 0 ∧
      ∀ l : Fin MaxPaths, l.val < n → l ≠ k → discriminating n masks patterns l ≠ 0 →
        difference masks patterns k l ≠ 0 := by
  have hloud : ∀ k l : Fin MaxPaths, l.val < n → difference masks patterns k l ≠ 0 →
      discriminating n masks patterns k ≠ 0 := fun k l hl hne h0 =>
    hne ((discriminating_eq_zero k).mp h0 l hl)
  have hrival : ∀ k, discriminating n masks patterns k ≠ 0 →
      ∃ l : Fin MaxPaths, l.val < n ∧ difference masks patterns k l ≠ 0 := by
    intro k hk
    by_contra hno
    refine hk ((discriminating_eq_zero k).mpr fun l hl => ?_)
    by_contra hne
    exact hno ⟨l, hl, hne⟩
  obtain ⟨b, hbn, hab⟩ := hrival a ha
  have hba : difference masks patterns b a ≠ 0 := difference_comm a b ▸ hab
  have hb := hloud b a han hba
  by_contra hno
  -- neither `a` nor `b` differs from all of them
  have hmissed : ∀ k : Fin MaxPaths, k.val < n → discriminating n masks patterns k ≠ 0 →
      ∃ l : Fin MaxPaths, l.val < n ∧ l ≠ k ∧ discriminating n masks patterns l ≠ 0 ∧
        difference masks patterns k l = 0 := by
    intro k hkn hk
    by_contra hnone
    refine hno ⟨k, hkn, hk, fun l hln hlk hl h0 => hnone ⟨l, hln, hlk, hl, h0⟩⟩
  obtain ⟨c, hcn, hca, hc, hac⟩ := hmissed a han ha
  obtain ⟨d, hdn, hdb, hd, hbd⟩ := hmissed b hbn hb
  have hne : ∀ k, discriminating n masks patterns k ≠ 0 → k ≠ i := by
    rintro k hk rfl
    exact hk hi
  have hcb : c ≠ b := by
    rintro rfl
    exact hab hac
  have hda : d ≠ a := by
    rintro rfl
    exact hba hbd
  have hab' : a ≠ b := by
    rintro rfl
    exact hab (difference_self a)
  -- four numbers: whom they miss is the same relation, and it differs from nobody
  have hfour : ∀ x : Fin MaxPaths, x ≠ i → x ≠ a → x ≠ b → x = c := by
    intro x hxi hxa hxb
    exact fourth (hne a ha) (hne b hb) (hne c hc) hab' hca hcb hxi hxa hxb
  obtain rfl := hfour d (hne d hd) hda hdb
  obtain ⟨x, hxn, hx⟩ := hrival d hd
  have hxd := hloud x d hdn (difference_comm d x ▸ hx)
  have hxa : x ≠ a := by
    rintro rfl
    rw [difference_comm] at hx
    exact hx hac
  have hxb : x ≠ b := by
    rintro rfl
    rw [difference_comm] at hx
    exact hx hbd
  obtain rfl := hfour x (hne x hxd) hxa hxb
  exact hx (difference_self x)

/-- A value that follows relation `i` where it is stable, and relation `k` elsewhere. -/
def blend (masks patterns : Fin MaxPaths → BitVec 64) (i k : Fin MaxPaths) : BitVec 64 :=
  (masks i &&& patterns i) ||| (~~~(masks i) &&& patterns k)

theorem getLsbD_blend (i k : Fin MaxPaths) {b : Nat} (hb : b < 64) :
    (blend masks patterns i k).getLsbD b
      = if (masks i).getLsbD b then (patterns i).getLsbD b else (patterns k).getLsbD b := by
  rw [blend, BitVec.getLsbD_or, getLsbD_and, getLsbD_and, BitVec.getLsbD_not,
    decide_eq_true hb]
  cases (masks i).getLsbD b <;> simp

theorem blend_consistent (i k : Fin MaxPaths) :
    blend masks patterns i k &&& masks i = patterns i &&& masks i := by
  apply eq_of_getLsbD_eq
  intro b hb
  rw [getLsbD_and, getLsbD_and, getLsbD_blend i k hb]
  cases hm : (masks i).getLsbD b <;> simp

/-- Where a relation that keeps no bit and another one are both stable, they agree. -/
theorem agree_of_silent {i k : Fin MaxPaths} (hi : discriminating n masks patterns i = 0)
    (hkn : k.val < n) {b : Nat} (hmi : (masks i).getLsbD b = true)
    (hmk : (masks k).getLsbD b = true) : (patterns i).getLsbD b = (patterns k).getLsbD b := by
  by_contra hne
  have hdiff : (difference masks patterns i k).getLsbD b = true :=
    (getLsbD_difference i k b).mpr ⟨hmi, hmk, hne⟩
  rw [(discriminating_eq_zero i).mp hi k hkn] at hdiff
  simp at hdiff

/-- The blend satisfies the predicate of `k`. -/
theorem blend_matches {i k : Fin MaxPaths} (hi : discriminating n masks patterns i = 0)
    (hkn : k.val < n) :
    blend masks patterns i k &&& discriminating n masks patterns k
      = patterns k &&& discriminating n masks patterns k := by
  apply eq_of_getLsbD_eq
  intro b hb
  rw [getLsbD_and, getLsbD_and, getLsbD_blend i k hb]
  cases hkept : (discriminating n masks patterns k).getLsbD b with
  | false => simp
  | true =>
    obtain ⟨rhs, -, hdiff⟩ := (getLsbD_discriminating k b).mp hkept
    have hmk := ((getLsbD_difference k rhs b).mp hdiff).1
    cases hmi : (masks i).getLsbD b with
    | false => simp
    | true => simp [agree_of_silent hi hkn hmi hmk]

/-- The blend breaks the predicate of a relation that differs from `k`. -/
theorem blend_breaks {i k l : Fin MaxPaths} (hi : discriminating n masks patterns i = 0)
    (hkn : k.val < n) (hln : l.val < n) (hkl : difference masks patterns k l ≠ 0) :
    blend masks patterns i k &&& discriminating n masks patterns l
      ≠ patterns l &&& discriminating n masks patterns l := by
  intro heq
  apply hkl
  rw [eq_zero_iff]
  intro b hdiff
  obtain ⟨hmk, hml, hne⟩ := (getLsbD_difference k l b).mp hdiff
  have hb : b < 64 := by
    by_contra hge
    rw [BitVec.getLsbD_of_ge _ _ (by omega)] at hmk
    cases hmk
  have hkept : (discriminating n masks patterns l).getLsbD b = true := by
    rw [getLsbD_discriminating]
    refine ⟨k, hkn, ?_⟩
    rw [difference_comm]
    exact hdiff
  have hbit := congrArg (fun v => v.getLsbD b) heq
  simp only [getLsbD_and, hkept, Bool.and_true, getLsbD_blend i k hb] at hbit
  cases hmi : (masks i).getLsbD b with
  | false =>
    rw [hmi] at hbit
    exact hne hbit
  | true => exact hne ((agree_of_silent hi hkn hmi hmk).symm.trans (agree_of_silent hi hln hmi hml))

end rival

/-! ## Every set of relations -/

section launch

variable {found : List (Option DVRAddressRelation)}

theorem collect_length_le (found : List (Option DVRAddressRelation)) :
    (collect found).length ≤ MaxPaths :=
  length_take_le _ _

section arrays

variable {relations : List DVRAddressRelation} {i j : Fin MaxPaths} {r r' : DVRAddressRelation}

theorem stableMasks_eq (hi : relations[i.val]? = some r) : stableMasks relations i = r.stableMask := by
  rw [stableMasks, hi]

theorem stablePatterns_eq (hi : relations[i.val]? = some r) :
    stablePatterns relations i = r.pattern &&& r.stableMask := by
  rw [stablePatterns, hi]

theorem difference_eq (hi : relations[i.val]? = some r) (hj : relations[j.val]? = some r') :
    difference (stableMasks relations) (stablePatterns relations) i j
      = r.stableMask &&& r'.stableMask &&& (r.pattern ^^^ r'.pattern) := by
  rw [difference, stableMasks_eq hi, stableMasks_eq hj, stablePatterns_eq hi, stablePatterns_eq hj]
  apply eq_of_getLsbD_eq
  intro b hb
  simp only [getLsbD_and, BitVec.getLsbD_xor]
  cases r.stableMask.getLsbD b <;> cases r'.stableMask.getLsbD b <;> simp

/-- A relation keeps a bit when it differs from some other one. -/
theorem loud_iff (hi : relations[i.val]? = some r) (hle : relations.length ≤ MaxPaths) :
    discriminating relations.length (stableMasks relations) (stablePatterns relations) i ≠ 0
      ↔ ∃ r' ∈ relations, Differ r r' := by
  rw [Ne, discriminating_eq_zero]
  constructor
  · intro hne
    by_contra hno
    apply hne
    intro k hk
    obtain ⟨r', hr'⟩ : ∃ r', relations[k.val]? = some r' := ⟨_, getElem?_eq_getElem hk⟩
    rw [difference_eq hi hr']
    by_contra hdiff
    exact hno ⟨r', mem_of_getElem? hr', hdiff⟩
  · rintro ⟨r', hmem, hdiff⟩ hall
    obtain ⟨k, hk, hget⟩ := getElem_of_mem hmem
    have hr' : relations[(⟨k, Nat.lt_of_lt_of_le hk hle⟩ : Fin MaxPaths).val]? = some r' := by
      rw [← hget]
      exact getElem?_eq_getElem hk
    have h0 := hall ⟨k, Nat.lt_of_lt_of_le hk hle⟩ hk
    rw [difference_eq hi hr'] at h0
    exact hdiff h0

end arrays

/-- What the tracker of a launch makes of a value. -/
theorem predicate_matches {lanes : Nat} {t : Tracker} (ht : predicate lanes found = some t) :
    1 < (collect found).length ∧ ∃ path_masks path_patterns,
      t = Tracker.begin lanes (collect found).length path_masks path_patterns ∧
      ∀ value (k : Fin MaxPaths), Matches (collect found).length path_masks path_patterns value k ↔
        k.val < (collect found).length ∧
        discriminating (collect found).length (stableMasks (collect found))
          (stablePatterns (collect found)) k ≠ 0 ∧
        value &&& discriminating (collect found).length (stableMasks (collect found))
          (stablePatterns (collect found)) k = stablePatterns (collect found) k
            &&& discriminating (collect found).length (stableMasks (collect found))
              (stablePatterns (collect found)) k := by
  have hle := collect_length_le found
  unfold predicate at ht
  simp only at ht
  split_ifs at ht with hmany
  cases ht
  refine ⟨hmany, _, _, rfl, ?_⟩
  intro value k
  have hmin : min (collect found).length MaxPaths = (collect found).length := Nat.min_eq_left hle
  unfold Matches
  rw [hmin]
  apply and_congr_right
  intro hk
  simp only [if_pos hk]
  rw [BitVec.and_assoc, BitVec.and_self]
  exact and_congr_left fun _ => ⟨fun h => h hmany, fun h _ => h⟩

/-- A relation that keeps a bit is not left for another one. -/
theorem sound_of_loud {i : Fin MaxPaths} {relation : DVRAddressRelation}
    (hi : (collect found)[i.val]? = some relation)
    (hloud : ∃ other ∈ collect found, Differ relation other) : Sound found i := by
  intro relation' hi' value hvalue lanes t ht calls lane hfirst j hne hsel
  rw [hi] at hi'
  cases hi'
  obtain ⟨-, path_masks, path_patterns, rfl, hmatches⟩ := predicate_matches ht
  rw [(recorded_run _ _ _ _ calls).mem_selected, decided_begin, hfirst] at hsel
  split_ifs at hsel with hlane
  have hverdict := Option.some.inj hsel
  rw [Tracker.begin_verdict] at hverdict
  -- the value satisfies the predicate of its own relation
  have hown : Matches (collect found).length path_masks path_patterns value i := by
    rw [hmatches]
    refine ⟨(List.getElem?_eq_some_iff.mp hi).1, ?_, ?_⟩
    · exact (loud_iff hi (collect_length_le found)).mpr hloud
    · apply consistent_kept
      rw [stableMasks_eq hi, stablePatterns_eq hi]
      exact hvalue
  exact hne ((hverdict i).mp hown).symm

/-- Without a bit that separates two relations nothing is selected. -/
theorem sound_of_silent (i : Fin MaxPaths)
    (hsilent : ∀ r ∈ collect found, ∀ r' ∈ collect found, ¬ Differ r r') : Sound found i := by
  intro relation hi value hvalue lanes t ht calls lane hfirst j hne hsel
  obtain ⟨-, path_masks, path_patterns, rfl, hmatches⟩ := predicate_matches ht
  rw [(recorded_run _ _ _ _ calls).mem_selected, decided_begin, hfirst] at hsel
  split_ifs at hsel with hlane
  have hverdict := Option.some.inj hsel
  rw [Tracker.begin_verdict] at hverdict
  obtain ⟨hj, hkept, -⟩ := (hmatches value j).mp ((hverdict j).mpr rfl)
  have hget : (collect found)[j.val]? = some ((collect found)[j.val]) := getElem?_eq_getElem hj
  obtain ⟨r', hr', hdiff⟩ := (loud_iff hget (collect_length_le found)).mp hkept
  exact hsilent _ (mem_of_getElem? hget) r' hr' hdiff

/-- A relation that keeps no bit, beside some that do, loses a value to one of them. -/
theorem lost_of_silent {i : Fin MaxPaths} {relation : DVRAddressRelation}
    (hi : (collect found)[i.val]? = some relation)
    (hsilent : ¬ ∃ other ∈ collect found, Differ relation other)
    (hloud : ∃ r ∈ collect found, ∃ r' ∈ collect found, Differ r r') : ¬ Sound found i := by
  intro hsound
  have hle := collect_length_le found
  obtain ⟨r, hr, r', hr', hdiff⟩ := hloud
  obtain ⟨a, ha, hget⟩ := getElem_of_mem hr
  have hra : (collect found)[(⟨a, Nat.lt_of_lt_of_le ha hle⟩ : Fin MaxPaths).val]? = some r := by
    rw [← hget]
    exact getElem?_eq_getElem ha
  have hai := (loud_iff hra hle).mpr ⟨r', hr', hdiff⟩
  have hi0 := not_not.mp fun hne => hsilent ((loud_iff hi hle).mp hne)
  obtain ⟨k, hkn, hk, hrivals⟩ := exists_rival hi0 (List.getElem?_eq_some_iff.mp hi).1 hai ha
  have hki : k ≠ i := by
    rintro rfl
    exact hk hi0
  -- two relations, so there is a tracker
  have hmany : 1 < (collect found).length := by
    have hin := (List.getElem?_eq_some_iff.mp hi).1
    omega
  obtain ⟨t, ht⟩ : ∃ t, predicate 1 found = some t := ⟨_, if_pos hmany⟩
  obtain ⟨-, path_masks, path_patterns, rfl, hmatches⟩ := predicate_matches ht
  have hvalue : Consistent relation
      (blend (stableMasks (collect found)) (stablePatterns (collect found)) i k) := by
    have hblend : blend (stableMasks (collect found)) (stablePatterns (collect found)) i k &&&
        stableMasks (collect found) i
          = stablePatterns (collect found) i &&& stableMasks (collect found) i :=
      blend_consistent i k
    rw [stableMasks_eq hi, stablePatterns_eq hi, BitVec.and_assoc, BitVec.and_self] at hblend
    exact hblend
  refine hsound relation hi _ hvalue 1 _ ht
    [⟨0, blend (stableMasks (collect found)) (stablePatterns (collect found)) i k⟩] 0 rfl k hki ?_
  rw [(recorded_run _ _ _ _ _).mem_selected, decided_begin]
  show some (Tracker.verdict _ _) = _
  rw [Option.some.injEq, Tracker.begin_verdict]
  intro l
  rw [hmatches]
  constructor
  · rintro ⟨hln, hl, hfits⟩
    by_contra hlk
    exact blend_breaks hi0 hkn hln (hrivals l hln hlk hl) hfits
  · rintro rfl
    exact ⟨hkn, hk, blend_matches hi0 hkn⟩

end launch

/-- A value consistent with a relation is never selected for another one, if the relation differs from
    some other one on a bit stable for both, or if no two of them do; and not otherwise. -/
theorem discriminator_sound {found : List (Option DVRAddressRelation)} {i : Fin MaxPaths}
    {relation : DVRAddressRelation} (hi : (collect found)[i.val]? = some relation) :
    Sound found i ↔ (∃ other ∈ collect found, Differ relation other) ∨
      ∀ r ∈ collect found, ∀ r' ∈ collect found, ¬ Differ r r' := by
  constructor
  · intro hsound
    by_contra hno
    rw [not_or] at hno
    refine lost_of_silent hi hno.1 ?_ hsound
    by_contra hnone
    exact hno.2 fun r hr r' hr' hdiff => hnone ⟨r, hr, r', hr', hdiff⟩
  · rintro (hloud | hsilent)
    · exact sound_of_loud hi hloud
    · exact sound_of_silent i hsilent

/-- A relation whose source value had one bit stable. -/
def trainedOn (stableMask pattern : RegVal) : Option DVRAddressRelation :=
  some { trained := true, stableMask := stableMask, pattern := pattern }

/-- Two relations that differ keep their values. -/
theorem discriminator_sound_pair : Sound [trainedOn 1 0, trainedOn 1 1] 0 :=
  (discriminator_sound (rfl : (collect [trainedOn 1 0, trainedOn 1 1])[0]?
    = some { trained := true, stableMask := 1, pattern := 0 })).mpr (Or.inl (by decide))

/-- Of three relations, the first has no stable bit in common with the others: its value 0 goes to
    the second. -/
theorem foreign_value_selected :
    let found := [trainedOn 1 0, trainedOn 2 0, trainedOn 2 2]
    (∃ relation, (collect found)[0]? = some relation ∧ Consistent relation 0) ∧
    (∃ t, predicate 1 found = some t ∧ (t.observe 0 0).2 = .Selected ∧
      (0 : Lane) ∈ ((run t [⟨0, 0⟩]).selected 1).members) ∧
    ¬ Sound found 0 := by
  have hselected : ∃ t, predicate 1 [trainedOn 1 0, trainedOn 2 0, trainedOn 2 2] = some t ∧
      (t.observe 0 0).2 = .Selected ∧ (0 : Lane) ∈ ((run t [⟨0, 0⟩]).selected 1).members :=
    ⟨_, rfl, by decide, by decide⟩
  refine ⟨⟨{ trained := true, stableMask := 1, pattern := 0 }, rfl, by decide⟩, hselected, ?_⟩
  intro hsound
  obtain ⟨t, ht, -, hmem⟩ := hselected
  exact hsound _ rfl 0 (by decide) 1 t ht [⟨0, 0⟩] 0 rfl 1 (by decide) hmem

end Gem5Dvr.LanePredicate
