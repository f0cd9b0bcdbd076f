/-
  Every run of launches, replay calls, service calls and completions keeps the lanes awake, as long
  as every step finds what it needs (`lanes_awake`).

  1. **Requests (`Grows`)** — what each call of the queue adds to the requests under way, and the one
     request that a service call can lose.

  2. **Names (`entries`)** — a lane of a launch is a source request first and a replay lane later; so
     no two lanes of the deque have one name, and a response finds its own lane.

  3. **Steps** — one lemma for each kind of call, and the induction over the run.

  4. **The two defects** — a lane that stands where a popped frame reconverges, and a request that is
     not translated.
-/
import Gem5Dvr.ParkedIssue

namespace Gem5Dvr.ParkedLanes

open List

open ReplayLanes (Template Lane Frame Helper Fate)
open PrefetchQueue (Prefetch Packet System Launch Answer Invocation Target)

variable {c : Config}

/-! ## Requests -/

/-- The requests under way are the old ones and `gained`. -/
def Grows (s s' : System) (gained : List Prefetch) : Prop :=
  (underWay s').Perm (gained ++ underWay s)

theorem Grows.refl (s : System) : Grows s s [] := Perm.refl _

variable {gained : List Prefetch} {lane : Fin 128} {p : Prefetch} {m : Machine} {l : Lane}
    {queue : System} {g : Nat}

theorem Grows.trans {s s' s'' : System} {gained' : List Prefetch} (h : Grows s s' gained)
    (h' : Grows s' s'' gained') : Grows s s'' (gained' ++ gained) := by
  unfold Grows at h h' ⊢
  rw [append_assoc]
  exact h'.trans (h.append_left gained')

theorem grows_pushBack (s : System) (p : Prefetch) : Grows s (s.pushBack p) [p] := by
  show (s.dvrPrefetchQueue ++ [p] ++ _).Perm (p :: (s.dvrPrefetchQueue ++ _))
  rw [append_assoc]
  exact perm_middle

theorem grows_pushFront (s : System) (c : PrefetchQueue.Config) (p : Prefetch) :
    Grows s (s.pushFront c p) [p] := Perm.refl _

/-- A source of the launch. -/
structure OfLaunch (l : Launch) (p : Prefetch) : Prop where
  source : p.source = true
  replay : p.replay = l.replay

/-- The lanes of a launch: sources with numbers of their own. -/
theorem launchLanes_grows (l : Launch) (nested : Bool) (as : List (Addr × Nat)) (s : System)
    (hnodup : (as.map Prod.snd).Nodup) :
    ∃ gained, Grows s (as.foldl (PrefetchQueue.launchLane l nested) s) gained ∧
      (∀ p ∈ gained, OfLaunch l p) ∧ (∀ p ∈ gained, p.lane ∈ as.map Prod.snd) ∧
      (gained.map Prefetch.lane).Nodup := by
  induction as generalizing s with
  | nil => exact ⟨[], .refl s, by simp, by simp, nodup_nil⟩
  | cons a as ih =>
    obtain ⟨hout, hrest⟩ := nodup_cons.mp hnodup
    obtain ⟨gained, hgrows, hof, hlanes, hnew⟩ := ih (PrefetchQueue.launchLane l nested s a) hrest
    rw [foldl_cons]
    by_cases hknown : s.Known a.1
    · have hsame : PrefetchQueue.launchLane l nested s a = s := if_pos hknown
      rw [hsame] at hgrows ⊢
      exact ⟨gained, hgrows, hof, fun p hp => mem_cons_of_mem _ (hlanes p hp), hnew⟩
    · obtain ⟨p, hsource, hreplay, hlane, hpush⟩ : ∃ p : Prefetch, p.source = true ∧
          p.replay = l.replay ∧ p.lane = a.2 ∧
          PrefetchQueue.launchLane l nested s a = s.pushBack p :=
        ⟨_, rfl, rfl, rfl, if_neg hknown⟩
      rw [hpush] at hgrows ⊢
      refine ⟨gained ++ [p], (grows_pushBack s p).trans hgrows, ?_, ?_, ?_⟩
      · intro q hq
        rcases mem_append.mp hq with hq | hq
        · exact hof q hq
        · rw [mem_singleton.mp hq]
          exact ⟨hsource, hreplay⟩
      · intro q hq
        rcases mem_append.mp hq with hq | hq
        · exact mem_cons_of_mem _ (hlanes q hq)
        · rw [mem_singleton.mp hq, hlane]
          exact mem_cons_self
      · rw [map_append, map_singleton, nodup_append]
        refine ⟨hnew, nodup_singleton _, ?_⟩
        intro k hk k' hk' heq
        obtain ⟨q, hq, rfl⟩ := mem_map.mp hk
        rw [mem_singleton.mp hk', hlane] at heq
        exact hout (heq ▸ hlanes q hq)

/-- The numbers of the lanes are their places. -/
theorem nodup_places (addresses : List Addr) : ((addresses.zipIdx).map Prod.snd).Nodup := by
  rw [zipIdx_map_snd]
  exact nodup_range'

/-- What a launch adds. -/
def Launched (l : Launch) (gained : List Prefetch) : Prop :=
  (∀ p ∈ gained, OfLaunch l p) ∧ (gained.map Prefetch.lane).Nodup

theorem stride_grows (l : Launch) (a d : Addr) (n : Nat) (v : Bool) (s : System) :
    ∃ gained, Grows s (PrefetchQueue.launchDVRStridePrefetches l a d n v s) gained ∧
      Launched l gained := by
  unfold PrefetchQueue.launchDVRStridePrefetches
  dsimp only
  split_ifs
  · exact ⟨[], .refl s, by simp, nodup_nil⟩
  · obtain ⟨gained, hgrows, hof, -, hnew⟩ := launchLanes_grows l false _ s (nodup_places _)
    exact ⟨gained, hgrows, hof, hnew⟩

theorem nested_grows (l : Launch) (is : List Invocation) (v : Bool) (s : System) :
    ∃ gained, Grows s (PrefetchQueue.launchNested l is v s) gained ∧ Launched l gained := by
  unfold PrefetchQueue.launchNested
  dsimp only
  split_ifs
  · exact ⟨[], .refl s, by simp, nodup_nil⟩
  · obtain ⟨gained, hgrows, hof, -, hnew⟩ := launchLanes_grows l true _ s (nodup_places _)
    exact ⟨gained, hgrows, hof, hnew⟩

/-- A request of no replay template. -/
theorem oracle_grows (tid : Nat) (fs : List Addr) (s : System) :
    ∃ gained, Grows s (PrefetchQueue.oracle tid fs s) gained ∧ ∀ p ∈ gained, p.replay = none := by
  induction fs generalizing s with
  | nil => exact ⟨[], .refl s, by simp⟩
  | cons future rest ih =>
    unfold PrefetchQueue.oracle
    split_ifs
    · exact ih s
    · exact ⟨[], .refl s, by simp⟩
    · obtain ⟨gained, hgrows, hnone⟩ := ih (s.pushBack _)
      refine ⟨_, (grows_pushBack s _).trans hgrows, ?_⟩
      intro p hp
      rcases mem_append.mp hp with hp | hp
      · exact hnone p hp
      · rw [mem_singleton.mp hp]

theorem vectorLanes_grows (tid : Nat) (pc : Addr) (as : List (Addr × Nat)) (s : System) :
    ∃ gained, Grows s (as.foldl (PrefetchQueue.vectorLane tid pc) s) gained ∧
      ∀ p ∈ gained, p.replay = none := by
  induction as generalizing s with
  | nil => exact ⟨[], .refl s, by simp⟩
  | cons a as ih =>
    obtain ⟨gained, hgrows, hnone⟩ := ih (PrefetchQueue.vectorLane tid pc s a)
    refine ⟨_, (grows_pushBack s _).trans hgrows, ?_⟩
    intro p hp
    rcases mem_append.mp hp with hp | hp
    · exact hnone p hp
    · rw [mem_singleton.mp hp]

theorem vector_grows (cfg : PrefetchQueue.Config) (tid : Nat) (a pc d : Addr) (s : System) :
    ∃ gained, Grows s (PrefetchQueue.vectorRunahead cfg tid a pc d s) gained ∧
      ∀ p ∈ gained, p.replay = none := by
  unfold PrefetchQueue.vectorRunahead
  split_ifs with hidle
  · unfold PrefetchQueue.launchDVRVectorRunahead
    obtain ⟨gained, hgrows, hnone⟩ := vectorLanes_grows tid pc
      (PrefetchQueue.laneAddresses a d (min cfg.dvrMaxLanes PrefetchQueue.MaxLanes)).zipIdx
      { s with
        dvrPrefetchQueue := [], dvrQueuedPrefetchAddresses := ∅, dvrQueuedDependentLines := ∅ }
    refine ⟨gained, ?_, hnone⟩
    -- the queue that is cleared is empty
    have hbefore : underWay s = [] ++ s.inFlight.map Packet.request := by
      unfold underWay
      rw [hidle.1]
    unfold Grows at hgrows ⊢
    rw [hbefore]
    exact hgrows
  · exact ⟨[], .refl s, by simp⟩

/-! ## Service and completion -/

/-- A request that is not sent, dropped or faulted stays under way; what is lost was the front
    request, a masked source or one that cannot be sent. -/
theorem service_spec (cfg : Config) (env : PrefetchQueue.Env) (s : System) :
    (underWay (PrefetchQueue.serviceDVRPrefetchRequest cfg.queue env s)).Perm (underWay s) ∨
      ∃ p, tried env s = some p ∧ (underWay s).Perm
          (p :: underWay (PrefetchQueue.serviceDVRPrefetchRequest cfg.queue env s)) ∧
        (p.source = true ∨ sendable cfg env p = false) := by
  unfold PrefetchQueue.serviceDVRPrefetchRequest
  cases hqueue : s.dvrPrefetchQueue with
  | nil => exact Or.inl (Perm.refl _)
  | cons prefetch rest =>
    dsimp only
    split_ifs with hready hissue hbudget hroom hfree hmasked
    · exact Or.inl (Perm.refl _)
    · exact Or.inl (Perm.refl _)
    · exact Or.inl (Perm.refl _)
    · exact Or.inl (Perm.refl _)
    · exact Or.inl (Perm.refl _)
    all_goals
      have htried : tried env s = some prefetch := by
        unfold tried
        rw [hqueue]
        simp only [Bool.not_eq_true, Bool.not_eq_false'] at hissue hbudget hfree
        simp [hissue, hbudget, hfree, Nat.not_le.mp hroom, Nat.not_lt.mp hready]
      have hhead : underWay s = prefetch :: underWay (s.popFront cfg.queue prefetch) := by
        unfold underWay
        show _ = prefetch :: (s.dvrPrefetchQueue.tail ++ _)
        rw [hqueue]
        rfl
    · -- a source of a stream that has faulted
      right
      refine ⟨prefetch, htried, ?_, Or.inl ?_⟩
      · rw [hhead]
        exact Perm.refl _
      · unfold System.masked at hmasked
        rw [Bool.and_eq_true] at hmasked
        exact hmasked.1
    · unfold System.attempt
      split_ifs with hline hfault htiming hsend
      · right
        refine ⟨prefetch, htried, ?_, Or.inr ?_⟩
        · rw [hhead]
          exact Perm.refl _
        · unfold sendable
          rw [decide_eq_false (Nat.not_le.mpr hline)]
          rfl
      · right
        refine ⟨prefetch, htried, ?_, Or.inr ?_⟩
        · rw [hhead]
          exact Perm.refl _
        · unfold sendable
          rw [hfault, Bool.not_true, Bool.and_false]
      · left
        rw [hhead]
        exact Perm.refl _
      · left
        rw [hhead]
        exact Perm.refl _
      · left
        rw [hhead]
        show (s.dvrPrefetchQueue.tail ++ prefetch :: s.inFlight.map Packet.request).Perm
          (prefetch :: (s.dvrPrefetchQueue.tail ++ s.inFlight.map Packet.request))
        exact perm_middle

/-- A request that a source value leads to: of the template of the source, or of none. -/
def FollowsUp (source : Prefetch) (p : Prefetch) : Prop :=
  p.source = false ∧ (p.replay = none ∨ p.replay = source.replay)

theorem dependent_grows (cfg : PrefetchQueue.Config) (p : Prefetch) (s : System) :
    Grows s (s.dependent cfg p) [] ∨ Grows s (s.dependent cfg p) [p] := by
  unfold System.dependent
  split_ifs
  · exact Or.inl (.refl s)
  · exact Or.inl (.refl s)
  · exact Or.inr (grows_pushFront s cfg p)

theorem affine_grows (cfg : PrefetchQueue.Config) (source : Prefetch) (value : RegVal) (many : Bool)
    (rs : List PrefetchQueue.Affine) (s : System) :
    ∃ gained, Grows s (PrefetchQueue.affine cfg source value many rs s) gained ∧
      ∀ p ∈ gained, FollowsUp source p := by
  fun_induction PrefetchQueue.affine cfg source value many rs s with
  | case1 => exact ⟨[], .refl _, by simp⟩
  | case2 s r rest _ ih => exact ih
  | case3 s r rest _ _ _ ih => exact ih
  | case4 => exact ⟨[], .refl _, by simp⟩
  | case5 s r rest _ _ _ _ _ _ ih => exact ih
  | case6 =>
    refine ⟨_, grows_pushFront _ cfg _, ?_⟩
    intro p hp
    rw [mem_singleton.mp hp]
    exact ⟨rfl, Or.inl rfl⟩

/-- The helper takes the source values of a template that it can replay. -/
theorem followUp_grows (cfg : PrefetchQueue.Config) (source : Prefetch) (a : Answer) (s : System) :
    ∃ gained, Grows s (PrefetchQueue.followUp cfg source a s) gained ∧
      (∀ p ∈ gained, FollowsUp source p) ∧
      (a.helperReplays = true → source.replay.isSome = true → gained = []) := by
  unfold PrefetchQueue.followUp
  split_ifs with hhelper henabled
  · exact ⟨[], .refl s, by simp, fun _ _ => rfl⟩
  · exact ⟨[], .refl s, by simp, fun _ _ => rfl⟩
  · cases hreplay : source.replay with
    | none =>
      obtain ⟨gained, hgrows, hfollows⟩ := affine_grows cfg source a.raw
        (decide (1 < source.relations.length)) source.relations s
      refine ⟨gained, hgrows, hfollows, ?_⟩
      intro _ hsome
      cases hsome
    | some g =>
      have hno : ¬ a.helperReplays = true := by
        intro hyes
        apply hhelper
        rw [hreplay]
        exact ⟨hyes, rfl⟩
      unfold System.replayDVRSource
      cases a.target with
      | none => exact ⟨[], .refl s, by simp, fun hyes _ => absurd hyes hno⟩
      | some target =>
        dsimp only
        split_ifs
        · rcases dependent_grows cfg
            { serial := s.generated.length, address := target.2, pc := target.1, tid := source.tid,
              nested := source.nested, replay := source.replay, predicate := source.predicate,
              lane := source.lane } s with hgrows | hgrows
          · exact ⟨[], hgrows, by simp, fun hyes _ => absurd hyes hno⟩
          · refine ⟨_, hgrows, ?_, fun hyes _ => absurd hyes hno⟩
            intro p hp
            rw [mem_singleton.mp hp]
            exact ⟨rfl, Or.inr rfl⟩
        · exact ⟨[], .refl s, by simp, fun hyes _ => absurd hyes hno⟩

/-- A completion: the request is over, and a source value may lead to others. -/
theorem completeDVRPrefetch_spec (cfg : PrefetchQueue.Config) {pkt : Packet} (a : Answer)
    {s : System} (hpkt : pkt ∈ s.inFlight) :
    ∃ s₁ gained, (underWay s).Perm (pkt.request :: underWay s₁) ∧
      Grows s₁ (PrefetchQueue.completeDVRPrefetch cfg pkt a s) gained ∧
      (∀ p ∈ gained, FollowsUp pkt.request p) ∧
      (a.helperReplays = true → pkt.request.replay.isSome = true → gained = []) := by
  have hout : (underWay s).Perm (pkt.request :: underWay (s.account cfg pkt)) := by
    show (s.dvrPrefetchQueue ++ s.inFlight.map Packet.request).Perm
      (pkt.request :: (s.dvrPrefetchQueue ++ (s.inFlight.erase pkt).map Packet.request))
    have hflight := (List.perm_cons_erase hpkt).map Packet.request
    exact (hflight.append_left s.dvrPrefetchQueue).trans perm_middle
  refine ⟨s.account cfg pkt, ?_⟩
  unfold PrefetchQueue.completeDVRPrefetch
  split_ifs with hsource
  · obtain ⟨gained, hgrows, hfollows, hhelper⟩ :=
      followUp_grows cfg pkt.request a (s.account cfg pkt)
    exact ⟨gained, hout, hgrows, hfollows, hhelper⟩
  · exact ⟨[], hout, .refl _, by simp, fun _ _ => rfl⟩

/-! ## Requests of lanes -/

/-- The request that a fate is about. -/
structure Asked (gen : Nat) (lane : Fin 128) (pc : Addr) (p : Prefetch) : Prop where
  source : p.source = false
  replay : p.replay = some gen
  lane : p.lane = lane.val
  pc : p.pc = pc

theorem ask_requested (readyTick : Nat) (carried : Nat → Carried) (s : System) (gen : Nat)
    (lane : Fin 128) (pc address : Addr) :
    ∃ p, Asked gen lane pc p ∧ (ask c readyTick carried s (.requested gen lane pc address) = s ∨
        ask c readyTick carried s (.requested gen lane pc address) = s.pushFront c.queue p) ∧
      (Admitted c.helper (.requested gen lane pc address) →
        (c.template gen).continuePastFLR = true →
        s.dvrPrefetchQueue.length < PrefetchQueue.DvrMaxQueuedPrefetches →
        ask c readyTick carried s (.requested gen lane pc address) = s.pushFront c.queue p) := by
  unfold ask PrefetchQueue.replayInsert
  dsimp only
  refine ⟨Target.prefetch
    { address := address, pc := pc, readyTick := readyTick, tid := (carried gen).tid,
      nested := (carried gen).nested, relations := (carried gen).relations, replay := gen,
      predicate := (carried gen).predicate, lane := lane } s.generated.length,
    ⟨rfl, rfl, rfl, rfl⟩, ?_, ?_⟩
  · split_ifs
    · exact Or.inr rfl
    · exact Or.inl rfl
  · intro hadmitted hcont hroom
    exact if_pos ⟨hadmitted.1, hadmitted.2, Or.inl hcont, hroom⟩

theorem ask_quiet (readyTick : Nat) (carried : Nat → Carried) (s : System) {f : Fate}
    (h : isRequest f = false) : ask c readyTick carried s f = s := by
  cases f with
  | requested gen lane pc address => cases h
  | rejected gen lane pc address => rfl
  | stride gen lane => rfl

theorem askAll_grows (readyTick : Nat) (carried : Nat → Carried) (fates : List Fate) (s : System) :
    ∃ gained, Grows s (fates.foldl (ask c readyTick carried) s) gained ∧
      ∀ p ∈ gained, p.source = false := by
  induction fates generalizing s with
  | nil => exact ⟨[], .refl s, by simp⟩
  | cons f fates ih =>
    obtain ⟨gained, hgrows, hdependent⟩ := ih (ask c readyTick carried s f)
    rw [foldl_cons]
    cases hf : isRequest f with
    | false =>
      rw [ask_quiet readyTick carried s hf] at hgrows ⊢
      exact ⟨gained, hgrows, hdependent⟩
    | true =>
      cases f with
      | requested gen lane pc address =>
        obtain ⟨p, hasked, hsame | hpush, -⟩ :=
          ask_requested (c := c) readyTick carried s gen lane pc address
        · rw [hsame] at hgrows ⊢
          exact ⟨gained, hgrows, hdependent⟩
        · rw [hpush] at hgrows ⊢
          refine ⟨gained ++ [p], (grows_pushFront s c.queue p).trans hgrows, ?_⟩
          intro q hq
          rcases mem_append.mp hq with hq | hq
          · exact hdependent q hq
          · rw [mem_singleton.mp hq]
            exact hasked.source
      | rejected gen lane pc address => cases hf
      | stride gen lane => cases hf

/-- Where a lane's answers are counted, only its own requests count. -/
theorem answers_asked {gen : Nat} {pc : Addr} (h : Asked gen lane pc p) (l : Lane) :
    answers c l p = (decide ((gen, lane) = l.key) && (c.template l.gen).continuePastFLR &&
      pc == ((c.template l.gen).uop l.uopIndex).pc) := by
  unfold answers
  rw [h.source, h.replay, h.lane, h.pc]
  by_cases hkey : (gen, lane) = l.key
  · obtain ⟨rfl, rfl⟩ := Prod.mk.inj hkey
    rw [decide_eq_true hkey, beq_self_eq_true, beq_self_eq_true]
    simp
  · rw [decide_eq_false hkey, Bool.false_and, Bool.false_and]
    by_cases hgen : gen = l.gen
    · have hlane : lane ≠ l.lane := fun heq => hkey (Prod.ext hgen heq)
      rw [beq_eq_false_iff_ne.mpr fun heq => hlane (Fin.ext heq)]
      simp
    · have hne : (some gen == some l.gen) = false := by
        rw [beq_eq_false_iff_ne]
        intro heq
        exact hgen (Option.some.inj heq)
      rw [hne]
      simp

/-- The requests of a call, counted for one lane. -/
theorem askAll_count (readyTick : Nat) (carried : Nat → Carried) (l : Lane) (fates : List Fate)
    (s : System) (hadmitted : ∀ f ∈ fates, Admitted c.helper f)
    (hroom : asks fates l.key = [] ∨ ((c.template l.gen).continuePastFLR = true ∧
      s.dvrPrefetchQueue.length + fates.countP isRequest ≤ PrefetchQueue.DvrMaxQueuedPrefetches)) :
    (underWay (fates.foldl (ask c readyTick carried) s)).countP (answers c l)
      = (asks fates l.key).countP (fun pc => pc == ((c.template l.gen).uop l.uopIndex).pc)
        + (underWay s).countP (answers c l) := by
  induction fates generalizing s with
  | nil => exact (Nat.zero_add _).symm
  | cons f fates ih =>
    have hadmitted' := fun f' hf' => hadmitted f' (mem_cons_of_mem f hf')
    have hsplit : asks (f :: fates) l.key = asks [f] l.key ++ asks fates l.key :=
      asks_append [f] fates l.key
    rw [hsplit] at hroom ⊢
    rw [foldl_cons, countP_append]
    cases hf : isRequest f with
    | false =>
      have hnone : asks [f] l.key = [] := by
        apply asks_eq_nil
        intro g k pc address hmem
        rw [← mem_singleton.mp hmem] at hf
        cases hf
      rw [hnone, nil_append] at hroom
      rw [ask_quiet readyTick carried s hf, hnone, countP_nil, Nat.zero_add]
      rw [countP_cons, hf] at hroom
      exact ih s hadmitted' hroom
    | true =>
      cases f with
      | rejected gen lane pc address => cases hf
      | stride gen lane => cases hf
      | requested gen lane pc address =>
        obtain ⟨p, hasked, hcases, hpushes⟩ :=
          ask_requested (c := c) readyTick carried s gen lane pc address
        have hlength : (ask c readyTick carried s
            (.requested gen lane pc address)).dvrPrefetchQueue.length
            ≤ s.dvrPrefetchQueue.length + 1 := by
          rcases hcases with hsame | hpush
          · rw [hsame]
            exact Nat.le_succ _
          · rw [hpush]
            exact Nat.le_refl _
        have hroom' : asks fates l.key = [] ∨ ((c.template l.gen).continuePastFLR = true ∧
            (ask c readyTick carried s (.requested gen lane pc address)).dvrPrefetchQueue.length
              + fates.countP isRequest ≤ PrefetchQueue.DvrMaxQueuedPrefetches) := by
          rcases hroom with hnone | ⟨hcont, hfits⟩
          · exact Or.inl (append_eq_nil_iff.mp hnone).2
          · right
            rw [countP_cons, hf] at hfits
            refine ⟨hcont, ?_⟩
            simp only [if_true] at hfits
            omega
        rw [ih _ hadmitted' hroom']
        by_cases hkey : (gen, lane) = l.key
        · -- its own request: there is room for it
          have hasks : asks [.requested gen lane pc address] l.key = [pc] := by
            rw [← hkey]
            exact asks_own gen lane pc address
          rw [hasks] at hroom ⊢
          obtain ⟨hcont, hfits⟩ := hroom.resolve_left (by simp)
          rw [countP_cons, hf] at hfits
          simp only [if_true] at hfits
          have hgen : gen = l.gen := congrArg Prod.fst hkey
          have hpush := hpushes (hadmitted _ mem_cons_self) (by rw [hgen]; exact hcont) (by omega)
          rw [hpush]
          have hgrows : (underWay (s.pushFront c.queue p)).countP (answers c l)
              = (p :: underWay s).countP (answers c l) := rfl
          rw [hgrows, countP_cons, answers_asked hasked l, decide_eq_true hkey, hcont,
            Bool.true_and, Bool.true_and, countP_singleton]
          omega
        · have hasks : asks [.requested gen lane pc address] l.key = [] := by
            apply asks_eq_nil
            intro g k pc' address' hmem
            cases mem_singleton.mp hmem
            exact hkey
          rw [hasks, countP_nil, Nat.zero_add]
          rcases hcases with hsame | hpush
          · rw [hsame]
          · rw [hpush]
            have hgrows : (underWay (s.pushFront c.queue p)).countP (answers c l)
                = (p :: underWay s).countP (answers c l) := rfl
            rw [hgrows, countP_cons, answers_asked hasked l, decide_eq_false hkey]
            simp

/-! ## Names -/

/-- The name of the lane that a source request will start. -/
def sourceKey (p : Prefetch) : Option (Nat × Nat) :=
  if p.source then p.replay.map fun g => (g, p.lane) else none

def laneName (l : Lane) : Nat × Nat := (l.gen, l.lane.val)

/-- The lanes of all launches that are still there. -/
def entries (m : Machine) : List (Nat × Nat) :=
  (underWay m.queue).filterMap sourceKey ++ m.helper.replayLanes.map laneName

/-- The invariant of the machine. -/
structure Inv (c : Config) (m : Machine) : Prop where
  nodup : (entries m).Nodup
  fresh : ∀ e ∈ entries m, e.1 < m.launches
  pcs : ∀ e ∈ entries m, hasPCs (c.template e.1) = true
  accepted : ∀ l ∈ m.helper.replayLanes, ReplayLanes.accepts c.helper l.gen = true
  index : ∀ l ∈ m.helper.replayLanes, 0 < l.uopIndex
  inside : ∀ l ∈ m.helper.replayLanes, parked l = true → l.uopIndex < (c.template l.gen).count
  awake : Awake c m

theorem Inv.mem (hl : l ∈ m.helper.replayLanes) :
    laneName l ∈ entries m := mem_append_right _ (mem_map_of_mem hl)

theorem Inv.issuable (h : Inv c m) : Issuable c.helper m.helper.replayLanes where
  nodup := by
    have hnames := (nodup_append.mp h.nodup).2.1
    have hkeys : m.helper.replayLanes.map laneName
        = (m.helper.replayLanes.map Lane.key).map fun key => (key.1, key.2.val) := by
      rw [map_map]
      rfl
    rw [hkeys] at hnames
    exact hnames.of_map _
  index := h.index
  accepted := h.accepted
  pcs l hl := h.pcs (laneName l) (Inv.mem hl)

/-- A lane's PC is found where the lane is. -/
theorem Inv.pc_ne (h : Inv c m) (hl : l ∈ m.helper.replayLanes)
    (hparked : parked l = true) : ((c.template l.gen).uop l.uopIndex).pc ≠ 0 :=
  hasPCs_uop (h.pcs (laneName l) (Inv.mem hl)) (h.index l hl) (h.inside l hl hparked)

/-- Requests that answer no lane make no difference to the lanes. -/
theorem countP_gained {rest : List Prefetch} (h : ∀ p ∈ gained, answers c l p = false) :
    (gained ++ rest).countP (answers c l) = rest.countP (answers c l) := by
  rw [countP_append, countP_eq_zero.mpr, Nat.zero_add]
  intro p hp
  rw [h p hp]
  exact Bool.false_ne_true

/-- The queue grows, by sources with new names or by requests that no lane waits for. -/
theorem Inv.grow (h : Inv c m) {launches : Nat} (hgrows : Grows m.queue queue gained)
    (hlaunches : m.launches ≤ launches) (hnames : (gained.filterMap sourceKey).Nodup)
    (hnew : ∀ e ∈ gained.filterMap sourceKey,
      m.launches ≤ e.1 ∧ e.1 < launches ∧ hasPCs (c.template e.1) = true)
    (hanswers : ∀ l ∈ m.helper.replayLanes, ∀ p ∈ gained, answers c l p = false) :
    Inv c { m with queue := queue, launches := launches } := by
  have hentries : (entries { m with queue := queue, launches := launches }).Perm
      (gained.filterMap sourceKey ++ entries m) := by
    unfold entries
    rw [← append_assoc]
    apply Perm.append_right
    have hperm := hgrows.filterMap sourceKey
    rw [filterMap_append] at hperm
    exact hperm
  constructor
  · rw [hentries.nodup_iff, nodup_append]
    refine ⟨hnames, h.nodup, ?_⟩
    intro e he e' he' heq
    have hold := h.fresh e' he'
    have hlate := (hnew e he).1
    rw [heq] at hlate
    omega
  · intro e he
    rcases mem_append.mp (hentries.mem_iff.mp he) with he | he
    · exact (hnew e he).2.1
    · exact Nat.lt_of_lt_of_le (h.fresh e he) hlaunches
  · intro e he
    rcases mem_append.mp (hentries.mem_iff.mp he) with he | he
    · exact (hnew e he).2.2
    · exact h.pcs e he
  · exact h.accepted
  · exact h.index
  · exact h.inside
  · constructor
    · intro l hl hparked
      show (underWay queue).countP _ = 1
      rw [hgrows.countP_eq, countP_gained (hanswers l hl)]
      exact h.awake.waiting l hl hparked
    · exact h.awake.blocked

theorem answers_source (h : p.source = true) (l : Lane) : answers c l p = false := by
  unfold answers
  rw [h]
  rfl

theorem answers_none (h : p.replay = none) (l : Lane) : answers c l p = false := by
  unfold answers
  rw [h]
  simp

theorem sourceKey_none (h : p.replay = none) : sourceKey p = none := by
  unfold sourceKey
  rw [h]
  split_ifs <;> rfl

theorem sourceKey_dependent (h : p.source = false) : sourceKey p = none := by
  unfold sourceKey
  rw [h]
  rfl

theorem filterMap_sourceKey_nil (h : ∀ p ∈ gained, sourceKey p = none) :
    gained.filterMap sourceKey = [] := filterMap_eq_nil_iff.mpr h

/-- Requests without a template, and no launch. -/
theorem Inv.grow_none (h : Inv c m)
    (hgrows : Grows m.queue queue gained) (hnone : ∀ p ∈ gained, p.replay = none) :
    Inv c { m with queue := queue } := by
  have hnil := filterMap_sourceKey_nil fun p hp => sourceKey_none (hnone p hp)
  apply h.grow hgrows (Nat.le_refl _)
  · rw [hnil]
    exact nodup_nil
  · intro e he
    rw [hnil] at he
    cases he
  · intro l _ p hp
    exact answers_none (hnone p hp) l

/-- The sources of a launch have the number of the launch. -/
theorem Inv.launch (h : Inv c m) {l : Launch} (hgrows : Grows m.queue queue gained)
    (hlaunched : Launched (m.number l) gained)
    (hpcs : (l.replay.isNone || hasPCs (c.template m.launches)) = true) :
    Inv c { m with queue := queue, launches := m.launches + 1 } := by
  obtain ⟨hof, hnew⟩ := hlaunched
  have hanswers : ∀ l ∈ m.helper.replayLanes, ∀ p ∈ gained, answers c l p = false :=
    fun l _ p hp => answers_source (hof p hp).source l
  cases hreplay : l.replay with
  | none =>
    have hnil : gained.filterMap sourceKey = [] := by
      apply filterMap_sourceKey_nil
      intro p hp
      apply sourceKey_none
      rw [(hof p hp).replay]
      show l.replay.map _ = none
      rw [hreplay]
      rfl
    apply h.grow hgrows (Nat.le_succ _)
    · rw [hnil]
      exact nodup_nil
    · intro e he
      rw [hnil] at he
      cases he
    · exact hanswers
  | some g =>
    rw [hreplay] at hpcs
    have hkey : ∀ p ∈ gained, sourceKey p = some (m.launches, p.lane) := by
      intro p hp
      have hnumber : p.replay = some m.launches := by
        rw [(hof p hp).replay]
        show l.replay.map _ = _
        rw [hreplay]
        rfl
      unfold sourceKey
      rw [(hof p hp).source, hnumber]
      rfl
    have hkeys : gained.filterMap sourceKey
        = (gained.map Prefetch.lane).map fun k => (m.launches, k) := by
      rw [map_map, ← filterMap_eq_map]
      exact filterMap_congr hkey
    apply h.grow hgrows (Nat.le_succ _)
    · rw [hkeys]
      exact hnew.map fun k k' heq => (Prod.mk.inj heq).2
    · intro e he
      rw [hkeys] at he
      obtain ⟨k, -, rfl⟩ := mem_map.mp he
      exact ⟨Nat.le_refl _, Nat.lt_succ_self _, hpcs⟩
    · exact hanswers

/-! ## Steps -/

/-- The deque changes without new names, and requests come or go that are not sources. -/
theorem Inv.names {m' : Machine} (h : Inv c m) (hsub : (entries m').Subperm (entries m))
    (hlaunches : m'.launches = m.launches) :
    (entries m').Nodup ∧ (∀ e ∈ entries m', e.1 < m'.launches) ∧
      ∀ e ∈ entries m', hasPCs (c.template e.1) = true := by
  obtain ⟨names, hperm, hsublist⟩ := hsub
  refine ⟨hperm.nodup_iff.mp (h.nodup.sublist hsublist), ?_, ?_⟩
  · intro e he
    rw [hlaunches]
    exact h.fresh e (hsublist.subset (hperm.mem_iff.mpr he))
  · intro e he
    exact h.pcs e (hsublist.subset (hperm.mem_iff.mpr he))

theorem exists_asked {fates : List Fate} {key : Nat × Fin 128} {pc : Addr}
    (h : pc ∈ asks fates key) : ∃ address, .requested key.1 key.2 pc address ∈ fates := by
  obtain ⟨f, hf, hsome⟩ := mem_filterMap.mp h
  cases f with
  | requested g k pc' address =>
    dsimp only at hsome
    split_ifs at hsome with hkey
    obtain rfl := Option.some.inj hsome
    rw [← hkey]
    exact ⟨address, hf⟩
  | rejected g k pc' address => cases hsome
  | stride g k => cases hsome

theorem answers_congr {l' : Lane} (hkey : l'.key = l.key) (hindex : l'.uopIndex = l.uopIndex) :
    answers c l' = answers c l := by
  have hgen : l'.gen = l.gen := congrArg Prod.fst hkey
  have hlane : l'.lane = l.lane := congrArg Prod.snd hkey
  funext p
  unfold answers
  rw [hgen, hlane, hindex]

theorem Inv.issue {m : Machine} (h : Inv c m) (env : ReplayLanes.Env) (carried : Nat → Carried)
    (hkeeps : Keeps c m (.issue env carried) = true) : Inv c (issue c env carried m) := by
  unfold Keeps at hkeeps
  rw [Bool.and_eq_true] at hkeeps
  obtain ⟨hpops, hfinds⟩ := hkeeps
  have hissued := issueDVRReplayLanes_issued c env h.issuable hpops
  unfold ParkedLanes.issue
  generalize ReplayLanes.issueDVRReplayLanes c.helper env m.helper = result at hfinds hissued ⊢
  obtain ⟨helper, report⟩ := result
  dsimp only at hfinds hissued ⊢
  generalize report.fates = fates at hfinds hissued ⊢
  rw [all_eq_true] at hfinds
  obtain ⟨gained, hgrows, hdependent⟩ := askAll_grows (c := c) env.readyTick carried fates m.queue
  have hnames : (helper.replayLanes.map laneName).Sublist (m.helper.replayLanes.map laneName) := by
    have hsub := hissued.keys.map fun key : Nat × Fin 128 => (key.1, key.2.val)
    rw [map_map, map_map] at hsub
    exact hsub
  have hsub : (entries { m with
      helper := helper
      queue := fates.foldl (ask c env.readyTick carried) m.queue }).Subperm (entries m) := by
    have hperm := hgrows.filterMap sourceKey
    rw [filterMap_append, filterMap_sourceKey_nil fun p hp =>
      sourceKey_dependent (hdependent p hp), nil_append] at hperm
    exact (hperm.append_right _).subperm.trans ((Sublist.refl _).append hnames).subperm
  have hlane : ∀ l' ∈ helper.replayLanes, ∃ l ∈ m.helper.replayLanes, l.gen = l'.gen := by
    intro l' hl'
    have hmem := hnames.subset (mem_map_of_mem (f := laneName) hl')
    obtain ⟨l, hl, hname⟩ := mem_map.mp hmem
    exact ⟨l, hl, (Prod.mk.inj hname).1⟩
  obtain ⟨hnodup, hfresh, hpcs⟩ := h.names hsub rfl
  constructor
  · exact hnodup
  · exact hfresh
  · exact hpcs
  · intro l' hl'
    obtain ⟨l, hl, hgen⟩ := hlane l' hl'
    rw [← hgen]
    exact h.accepted l hl
  · exact hissued.index
  · intro l' hl' hparked
    rcases hissued.parked l' hl' hparked with ⟨-, l, hl, hbefore, hkey, hsame⟩ | ⟨-, hlt, -⟩
    · have hinside := h.inside l hl hbefore
      rw [hsame, show l.gen = l'.gen from congrArg Prod.fst hkey] at hinside
      exact hinside
    · exact hlt
  · constructor
    · intro l' hl' hparked
      show (underWay (fates.foldl (ask c env.readyTick carried) m.queue)).countP _ = 1
      rcases hissued.parked l' hl' hparked with ⟨hquiet, l, hl, hbefore, hkey, hsame⟩ |
        ⟨hasked, -, hcont⟩
      · -- it was parked before, and nothing was asked for it
        rw [askAll_count env.readyTick carried l' fates m.queue hissued.admitted
          (Or.inl hquiet), hquiet, countP_nil, Nat.zero_add,
          answers_congr hkey.symm hsame.symm]
        exact h.awake.waiting l hl hbefore
      · -- it has parked: its one request found a place, and no other one
        obtain ⟨address, hfate⟩ := exists_asked (by rw [hasked]; exact mem_singleton_self _)
        have hfound := hfinds _ hfate
        unfold finds at hfound
        dsimp only at hfound
        rw [show (c.template l'.key.1).continuePastFLR = true from hcont, Bool.not_true,
          Bool.false_or, Bool.and_eq_true, decide_eq_true_iff, all_eq_true] at hfound
        obtain ⟨hroom, hnone⟩ := hfound
        have hzero : (underWay m.queue).countP (answers c l') = 0 := by
          rw [countP_eq_zero]
          intro p hp hyes
          have hno := hnone p hp
          unfold answers at hyes
          simp only [Bool.and_eq_true, Bool.not_eq_true', beq_iff_eq] at hyes
          obtain ⟨⟨⟨⟨hsource, hreplay⟩, -⟩, hlane'⟩, hpc⟩ := hyes
          rw [hsource, hreplay, hlane', hpc] at hno
          simp [Lane.key] at hno
          exact hno rfl
        rw [askAll_count env.readyTick carried l' fates m.queue hissued.admitted
          (Or.inr ⟨hcont, hroom⟩), hasked, hzero, countP_singleton]
        exact if_pos (beq_self_eq_true _)
    · exact hissued.held h.awake.blocked

/-- A request is over, and no lane waits for it. -/
theorem Inv.lose (h : Inv c m) (hperm : (underWay m.queue).Perm (p :: underWay queue))
    (hanswers : ∀ l ∈ m.helper.replayLanes, parked l = true → answers c l p = false) :
    Inv c { m with queue := queue } := by
  have hsub : (entries { m with queue := queue }).Subperm (entries m) := by
    have hnames := (sublist_cons_self p (underWay queue)).filterMap sourceKey
    have hlarge := (hperm.filterMap sourceKey).symm.subperm
    exact (hnames.subperm.trans hlarge).append (Subperm.refl _)
  obtain ⟨hnodup, hfresh, hpcs⟩ := h.names hsub rfl
  constructor
  · exact hnodup
  · exact hfresh
  · exact hpcs
  · exact h.accepted
  · exact h.index
  · exact h.inside
  · constructor
    · intro l hl hparked
      have hone := h.awake.waiting l hl hparked
      rw [hperm.countP_eq, countP_cons, hanswers l hl hparked] at hone
      exact hone
    · exact h.awake.blocked

theorem awaited_eq_false {h : Helper} (hno : awaited c h p = false)
    (hl : l ∈ h.replayLanes) (hparked : parked l = true) : answers c l p = false := by
  unfold awaited at hno
  rw [any_eq_false] at hno
  have hone := hno l hl
  rw [hparked, Bool.true_and, Bool.not_eq_true] at hone
  exact hone

theorem Inv.service (h : Inv c m) (env : PrefetchQueue.Env)
    (hkeeps : Keeps c m (.service env) = true) :
    Inv c { m with queue := PrefetchQueue.serviceDVRPrefetchRequest c.queue env m.queue } := by
  rcases service_spec c env m.queue with hsame | ⟨p, htried, hperm, hlost⟩
  · have hgrows : Grows m.queue (PrefetchQueue.serviceDVRPrefetchRequest c.queue env m.queue) [] :=
      hsame
    exact h.grow_none hgrows (by simp)
  · apply h.lose hperm
    intro l hl hparked
    cases hsource : p.source with
    | true => exact answers_source hsource l
    | false =>
      unfold Keeps at hkeeps
      dsimp only at hkeeps
      rw [htried] at hkeeps
      have hunsent : sendable c env p = false := by
        rw [hsource] at hlost
        exact hlost.resolve_left Bool.false_ne_true
      have hno : awaited c m.helper p = false := by
        rw [Option.all_some, hunsent, Bool.or_false, Bool.not_eq_true'] at hkeeps
        exact hkeeps
      exact awaited_eq_false hno hl hparked

theorem mem_replaceFirst {α β : Type} {q : α → Bool} {f : α → α} (key : α → β) (name : β)
    {as : List α} (hname : ∀ a, q a = true → key a = name) (hnodup : (as.map key).Nodup)
    {b : α} (hb : b ∈ ReplayLanes.replaceFirst q f as) :
    (b ∈ as ∧ q b = false) ∨ ∃ a ∈ as, q a = true ∧ b = f a := by
  induction as with
  | nil => cases hb
  | cons a as ih =>
    obtain ⟨hout, hrest⟩ := nodup_cons.mp hnodup
    unfold ReplayLanes.replaceFirst at hb
    cases ha : q a with
    | true =>
      rw [ha, if_pos rfl] at hb
      rcases mem_cons.mp hb with rfl | hb
      · exact Or.inr ⟨a, mem_cons_self, ha, rfl⟩
      · -- no other element has the name
        left
        refine ⟨mem_cons_of_mem a hb, ?_⟩
        by_contra hq
        rw [Bool.not_eq_false] at hq
        apply hout
        rw [hname a ha, ← hname b hq]
        exact mem_map_of_mem hb
    | false =>
      rw [ha, if_neg Bool.false_ne_true] at hb
      rcases mem_cons.mp hb with rfl | hb
      · exact Or.inl ⟨mem_cons_self, ha⟩
      · rcases ih hrest hb with ⟨hold, hq⟩ | ⟨a', ha', hq, heq⟩
        · exact Or.inl ⟨mem_cons_of_mem a hold, hq⟩
        · exact Or.inr ⟨a', mem_cons_of_mem a ha', hq, heq⟩

theorem map_replaceFirst {α β : Type} {q : α → Bool} (f : α → α) (key : α → β)
    (hf : ∀ a, key (f a) = key a) (as : List α) :
    (ReplayLanes.replaceFirst q f as).map key = as.map key := by
  induction as with
  | nil => rfl
  | cons a as ih =>
    unfold ReplayLanes.replaceFirst
    split_ifs
    · rw [map_cons, map_cons, hf]
    · rw [map_cons, map_cons, ih]

/-- `resumeDependentLane`: nothing, or the lane that is parked there goes on. -/
theorem resumeDependentLane_cases (cfg : ReplayLanes.Config) (h : Helper) (gen : Nat)
    (lane : Fin 128) (pc : Addr) (value : RegVal) :
    (ReplayLanes.resumeDependentLane cfg h gen lane pc value = h ∧
        (pc = 0 ∨ ∀ l ∈ h.replayLanes, ReplayLanes.parkedAt cfg gen lane pc l = false)) ∨
      ((ReplayLanes.resumeDependentLane cfg h gen lane pc value).context = h.context ∧
        (ReplayLanes.resumeDependentLane cfg h gen lane pc value).replayLanes =
          ReplayLanes.replaceFirst (ReplayLanes.parkedAt cfg gen lane pc)
            (ReplayLanes.resumed cfg) h.replayLanes) := by
  unfold ReplayLanes.resumeDependentLane
  by_cases hpc : pc = 0
  · rw [if_pos hpc]
    exact Or.inl ⟨rfl, Or.inl hpc⟩
  · rw [if_neg hpc]
    cases hfind : h.replayLanes.find? (ReplayLanes.parkedAt cfg gen lane pc) with
    | none =>
      left
      refine ⟨rfl, Or.inr ?_⟩
      intro l hl
      have hno := find?_eq_none.mp hfind l hl
      rw [Bool.not_eq_true] at hno
      exact hno
    | some l =>
      right
      dsimp only
      cases ((cfg.template gen).uop l.uopIndex).destination with
      | none => exact ⟨rfl, rfl⟩
      | some r => exact ⟨rfl, rfl⟩

/-- A parked lane that the request answers is the one that is looked for. -/
theorem Inv.parkedAt (h : Inv c m) (hl : l ∈ m.helper.replayLanes)
    (hparked : parked l = true) (hanswers : answers c l p = true)
    (hreplay : p.replay = some g) (hlane : p.lane = lane.val) :
    ReplayLanes.parkedAt c.helper g lane p.pc l = true := by
  have hinside := h.inside l hl hparked
  unfold answers at hanswers
  rw [hreplay, hlane] at hanswers
  simp only [Bool.and_eq_true, beq_iff_eq, Option.some.injEq] at hanswers
  obtain ⟨⟨⟨⟨-, rfl⟩, -⟩, hname⟩, hpc⟩ := hanswers
  obtain rfl := Fin.ext hname
  unfold parked at hparked
  rw [Bool.and_eq_true] at hparked
  unfold ReplayLanes.parkedAt
  rw [hparked.1, hparked.2, beq_self_eq_true, beq_self_eq_true, hpc]
  simp only [Bool.and_true, Bool.true_and, Bool.and_eq_true, decide_eq_true_iff, beq_iff_eq]
  exact ⟨hinside, rfl⟩

/-- A dependent response: the lane that waits for it goes on. -/
theorem Inv.resume (h : Inv c m) (hperm : (underWay m.queue).Perm (p :: underWay queue))
    (hreplay : p.replay = some g) (hlane : p.lane = lane.val) (value : RegVal) :
    Inv c { m with
      queue := queue
      helper := ReplayLanes.resumeDependentLane c.helper m.helper g lane p.pc value } := by
  rcases resumeDependentLane_cases c.helper m.helper g lane p.pc value with
    ⟨hsame, hnobody⟩ | ⟨hcontext, hlanes⟩
  · rw [hsame]
    apply h.lose hperm
    intro l hl hparked
    by_contra hyes
    rw [Bool.not_eq_false] at hyes
    rcases hnobody with hzero | hnobody
    · apply h.pc_ne hl hparked
      unfold answers at hyes
      rw [Bool.and_eq_true, beq_iff_eq] at hyes
      rw [← hyes.2, hzero]
    · have hno := hnobody l hl
      rw [h.parkedAt hl hparked hyes hreplay hlane] at hno
      cases hno
  · have hnames : (ReplayLanes.resumeDependentLane c.helper m.helper g lane p.pc
        value).replayLanes.map laneName = m.helper.replayLanes.map laneName := by
      rw [hlanes]
      exact map_replaceFirst (ReplayLanes.resumed c.helper) laneName (fun l => rfl) _
    -- the lanes that are not looked for, and the one that goes on
    have hcases : ∀ l' ∈ (ReplayLanes.resumeDependentLane c.helper m.helper g lane p.pc
        value).replayLanes, (l' ∈ m.helper.replayLanes ∧
          ReplayLanes.parkedAt c.helper g lane p.pc l' = false) ∨
        ∃ l ∈ m.helper.replayLanes, ReplayLanes.parkedAt c.helper g lane p.pc l = true ∧
          l' = ReplayLanes.resumed c.helper l := by
      intro l' hl'
      rw [hlanes] at hl'
      apply mem_replaceFirst laneName (g, lane.val) _ _ hl'
      · intro l hl
        unfold ReplayLanes.parkedAt at hl
        simp only [Bool.and_eq_true, beq_iff_eq] at hl
        exact Prod.ext hl.1.1.1.1.2 (congrArg Fin.val hl.1.1.1.2)
      · exact (nodup_append.mp h.nodup).2.1
    have hsub : (entries { m with
        queue := queue
        helper := ReplayLanes.resumeDependentLane c.helper m.helper g lane p.pc value }).Subperm
        (entries m) := by
      have hsources := ((sublist_cons_self p (underWay queue)).filterMap
        sourceKey).subperm.trans (hperm.filterMap sourceKey).symm.subperm
      unfold entries
      rw [hnames]
      exact hsources.append (Subperm.refl _)
    obtain ⟨hnodup, hfresh, hpcs⟩ := h.names hsub rfl
    have hresumed : ∀ l ∈ m.helper.replayLanes, 0 < (ReplayLanes.resumed c.helper l).uopIndex ∧
        parked (ReplayLanes.resumed c.helper l) = false := by
      intro l hl
      have haccepted := h.accepted l hl
      unfold ReplayLanes.accepts at haccepted
      rw [Bool.and_eq_true, decide_eq_true_iff] at haccepted
      constructor
      · unfold ReplayLanes.resumed
        dsimp only
        split_ifs
        · exact Nat.succ_pos _
        · omega
      · show (!((c.helper.template l.gen).successor l.uopIndex == 0) &&
          (c.helper.template l.gen).successor l.uopIndex == 0) = false
        rw [Bool.not_and_self]
    constructor
    · exact hnodup
    · exact hfresh
    · exact hpcs
    · intro l' hl'
      rcases hcases l' hl' with ⟨hl, -⟩ | ⟨l, hl, -, rfl⟩
      · exact h.accepted l' hl
      · exact h.accepted l hl
    · intro l' hl'
      rcases hcases l' hl' with ⟨hl, -⟩ | ⟨l, hl, -, rfl⟩
      · exact h.index l' hl
      · exact (hresumed l hl).1
    · intro l' hl' hparked
      rcases hcases l' hl' with ⟨hl, -⟩ | ⟨l, hl, -, rfl⟩
      · exact h.inside l' hl hparked
      · rw [(hresumed l hl).2] at hparked
        cases hparked
    · constructor
      · intro l' hl' hparked
        rcases hcases l' hl' with ⟨hl, hno⟩ | ⟨l, hl, -, rfl⟩
        · have hone := h.awake.waiting l' hl hparked
          have hother : answers c l' p = false := by
            by_contra hyes
            rw [Bool.not_eq_false] at hyes
            rw [h.parkedAt hl hparked hyes hreplay hlane] at hno
            cases hno
          rw [hperm.countP_eq, countP_cons, hother] at hone
          exact hone
        · rw [(hresumed l hl).2] at hparked
          cases hparked
      · intro l' hl' hactive hblocked
        show ∃ f ∈ ((ReplayLanes.resumeDependentLane c.helper m.helper g lane p.pc
          value).context l'.gen).stack, _
        rw [hcontext]
        rcases hcases l' hl' with ⟨hl, -⟩ | ⟨l, hl, hthere, rfl⟩
        · exact h.awake.blocked l' hl hactive hblocked
        · unfold ReplayLanes.parkedAt at hthere
          simp only [Bool.and_eq_true] at hthere
          exact h.awake.blocked l hl hthere.1.1.1.1.1 hblocked

/-- A source response: the lane of the request is enqueued. -/
theorem Inv.enqueue (h : Inv c m) (hperm : (underWay m.queue).Perm (p :: underWay queue))
    (hsource : p.source = true) (hreplay : p.replay = some g) (hlane : p.lane = lane.val)
    (value : RegVal) :
    Inv c { m with
      queue := queue
      helper := ReplayLanes.enqueueReplayLane c.helper m.helper g lane value } := by
  have hlost : Inv c { m with queue := queue } := h.lose hperm fun l _ _ => answers_source hsource l
  have hkey : sourceKey p = some (g, lane.val) := by
    unfold sourceKey
    rw [if_pos hsource, hreplay, hlane]
    rfl
  have hmem : (g, lane.val) ∈ entries m := by
    apply mem_append_left
    rw [(hperm.filterMap sourceKey).mem_iff, filterMap_cons_some hkey]
    exact mem_cons_self
  unfold ReplayLanes.enqueueReplayLane
  dsimp only
  cases htrigger : (c.helper.template g).triggerDestination with
  | none => exact hlost
  | some r =>
    dsimp only
    by_cases hcount : (c.helper.template g).count ≤ 1
    · rw [if_pos hcount]
      exact hlost
    · rw [if_neg hcount]
      have hpc : ((c.helper.template g).uop 1).pc ≠ 0 :=
        hasPCs_uop (h.pcs _ hmem) Nat.one_pos (Nat.not_le.mp hcount)
      rw [if_neg hpc]
      have hsub : (entries { m with
          queue := queue
          helper :=
            { replayLanes := m.helper.replayLanes ++
                [{ gen := g, lane := lane, lanePC := ((c.helper.template g).uop 1).pc }]
              context := Function.update m.helper.context g
                ((m.helper.context g).join lane ((c.helper.template g).uop 1).pc)
              regs := m.helper.regs.set g lane r value
              readyAt := m.helper.readyAt.set g lane r 0 } }).Perm (entries m) := by
        unfold entries
        rw [map_append, ← append_assoc]
        have hnames := (hperm.filterMap sourceKey).append_right (m.helper.replayLanes.map laneName)
        rw [filterMap_cons_some hkey] at hnames
        exact perm_append_singleton _ _ |>.trans hnames.symm
      obtain ⟨hnodup, hfresh, hpcs⟩ := h.names hsub.subperm rfl
      constructor
      · exact hnodup
      · exact hfresh
      · exact hpcs
      · intro l hl
        rcases mem_append.mp hl with hl | hl
        · exact h.accepted l hl
        · rw [mem_singleton.mp hl]
          show ((c.helper.template g).triggerDestination.isSome &&
            decide (1 < (c.helper.template g).count)) = true
          rw [htrigger, decide_eq_true (Nat.not_le.mp hcount)]
          rfl
      · intro l hl
        rcases mem_append.mp hl with hl | hl
        · exact h.index l hl
        · rw [mem_singleton.mp hl]
          exact Nat.one_pos
      · intro l hl hparked
        rcases mem_append.mp hl with hl | hl
        · exact h.inside l hl hparked
        · rw [mem_singleton.mp hl]
          exact Nat.not_le.mp hcount
      · constructor
        · intro l hl hparked
          rcases mem_append.mp hl with hl | hl
          · exact hlost.awake.waiting l hl hparked
          · rw [mem_singleton.mp hl] at hparked
            unfold parked at hparked
            rw [Bool.and_eq_true, beq_iff_eq] at hparked
            exact absurd hparked.2 hpc
        · intro l hl hactive hblocked
          have hframes := congrFun (ReplayLanes.frames_join m.helper g lane
            ((c.helper.template g).uop 1).pc) l.gen
          show ∃ f ∈ (Function.update m.helper.context g _ l.gen).stack, _
          rw [hframes]
          rcases mem_append.mp hl with hl | hl
          · exact h.awake.blocked l hl hactive hblocked
          · rw [mem_singleton.mp hl] at hblocked
            cases hblocked

/-- A response: its lane starts or goes on, or no lane waits for it. -/
theorem Inv.wake (h : Inv c m) (a : Answer) (hperm : (underWay m.queue).Perm (p :: underWay queue))
    (hdata : (!awaited c m.helper p || a.hasData) = true) :
    Inv c { m with queue := queue, helper := wake c p a m.helper } := by
  -- where nothing is resumed, no lane waits
  have hlose : (∀ l ∈ m.helper.replayLanes, parked l = true → answers c l p = false) →
      Inv c { m with queue := queue } := fun hanswers => h.lose hperm hanswers
  unfold ParkedLanes.wake
  cases hreplay : p.replay with
  | none => exact hlose fun l _ _ => answers_none hreplay l
  | some g =>
    dsimp only
    by_cases hlane : p.lane < 128
    · rw [dif_pos hlane]
      cases hhas : a.hasData with
      | false =>
        rw [hhas, Bool.or_false, Bool.not_eq_true'] at hdata
        exact hlose fun l hl hparked => awaited_eq_false hdata hl hparked
      | true =>
        cases hsource : p.source with
        | true =>
          exact h.enqueue hperm hsource hreplay rfl _
        | false =>
          cases hvalue : valueResponse c p with
          | true =>
            exact h.resume hperm hreplay rfl _
          | false =>
            apply hlose
            intro l _ _
            by_contra hyes
            rw [Bool.not_eq_false] at hyes
            unfold answers at hyes
            simp only [Bool.and_eq_true, beq_iff_eq] at hyes
            unfold valueResponse at hvalue
            rw [hsource, hyes.1.1.1.2, Option.any_some] at hvalue
            rw [show (c.template l.gen).continuePastFLR = true from hyes.1.1.2] at hvalue
            cases hvalue
    · rw [dif_neg hlane]
      apply hlose
      intro l _ _
      by_contra hyes
      rw [Bool.not_eq_false] at hyes
      unfold answers at hyes
      simp only [Bool.and_eq_true, beq_iff_eq] at hyes
      apply hlane
      rw [hyes.1.2]
      exact l.lane.isLt

theorem Inv.complete (h : Inv c m) {pkt : Packet} (a : Answer) (hpkt : pkt ∈ m.queue.inFlight)
    (hdata : (!awaited c m.helper pkt.request || a.hasData) = true) :
    Inv c (complete c pkt a m) := by
  obtain ⟨queue, gained, hperm, hgrows, hfollows, hhelper⟩ := completeDVRPrefetch_spec c.queue
    { a with helperReplays := pkt.request.replay.any (ReplayLanes.accepts c.helper) } hpkt
  have hwoken := h.wake a hperm hdata
  have hnil := filterMap_sourceKey_nil fun p hp => sourceKey_dependent (hfollows p hp).1
  apply hwoken.grow hgrows (Nat.le_refl _)
  · rw [hnil]
    exact nodup_nil
  · intro e he
    rw [hnil] at he
    cases he
  · intro l hl p hp
    rcases (hfollows p hp).2 with hnone | hsame
    · exact answers_none hnone l
    · -- the template of the source is one that the helper does not take
      by_contra hyes
      rw [Bool.not_eq_false] at hyes
      unfold answers at hyes
      simp only [Bool.and_eq_true, beq_iff_eq] at hyes
      have hreplay : pkt.request.replay = some l.gen := hsame.symm.trans hyes.1.1.1.2
      have hempty := hhelper (by
        show pkt.request.replay.any (ReplayLanes.accepts c.helper) = true
        rw [hreplay]
        exact hwoken.accepted l hl) (by rw [hreplay]; rfl)
      rw [hempty] at hp
      cases hp

/-- One call. -/
theorem Inv.next (h : Inv c m) (e : Event) (hkeeps : Keeps c m e = true) : Inv c (next c m e) := by
  cases e with
  | stride l a d n v =>
    obtain ⟨gained, hgrows, hlaunched⟩ := stride_grows (m.number l) a d n v m.queue
    exact h.launch hgrows hlaunched hkeeps
  | nested l is v =>
    obtain ⟨gained, hgrows, hlaunched⟩ := nested_grows (m.number l) is v m.queue
    exact h.launch hgrows hlaunched hkeeps
  | vector tid a pc d =>
    obtain ⟨gained, hgrows, hnone⟩ := vector_grows c.queue tid a pc d m.queue
    exact h.grow_none hgrows hnone
  | oracle tid fs =>
    obtain ⟨gained, hgrows, hnone⟩ := oracle_grows tid fs m.queue
    exact h.grow_none hgrows hnone
  | demand a =>
    have hgrows : Grows m.queue (ParkedLanes.next c m (.demand a)).queue [] := Perm.refl _
    exact h.grow_none hgrows (by simp)
  | issue env carried => exact h.issue env carried hkeeps
  | service env => exact h.service env hkeeps
  | complete id a =>
    unfold Keeps at hkeeps
    unfold ParkedLanes.next
    dsimp only at hkeeps ⊢
    cases hfind : m.queue.inFlight.find? fun pkt => pkt.helperLoadId == id with
    | none => exact h
    | some pkt =>
      rw [hfind] at hkeeps
      exact h.complete a (mem_of_find?_eq_some hfind) hkeeps

theorem inv_start (c : Config) : Inv c (start c) := by
  constructor
  · exact nodup_nil
  · intro e he
    cases he
  · intro e he
    cases he
  · intro l hl
    cases hl
  · intro l hl
    cases hl
  · intro l hl
    cases hl
  · constructor
    · intro l hl
      cases hl
    · intro l hl
      cases hl

/-- **No lane is parked or blocked for ever** in a run whose steps find what they need. -/
theorem lanes_awake (c : Config) (es : List Event)
    (h : Trace.Admits (fun m e => Keeps c m e = true) (next c) (start c) es) :
    ∀ pre, pre <+: es → Awake c (pre.foldl (next c) (start c)) := by
  rintro pre ⟨rest, rfl⟩
  rw [Trace.admits_append] at h
  exact (h.1.invariant (Inv c) (fun m e hinv hkeeps => hinv.next e hkeeps) (inv_start c)).awake

/-! ## The defects -/

/-- A load whose address is its trigger value. -/
def loadUop : Uop where
  pc := 0x14
  semantic := .LoadDouble
  source0 := some 5
  destination := some 6
  loadBytes := 8
  load := true
  tainted := true

def moveUop (pc : Addr) : Uop where
  pc := pc
  semantic := .Move
  source0 := some 5
  destination := some 7

/-- A branch whose two sides join at `0x20`. -/
def branchUop : Uop where
  pc := 0x14
  semantic := .BranchEqual
  source0 := some 5
  branchTargetPC := 0x1c
  fallthroughPC := 0x18
  reconvergencePC := 0x20
  control := true
  conditional := true
  tainted := true

/-- One template for all launches, in lines of 64 bytes. -/
def withUops (uops : List Uop) : Config where
  queue :=
    { cacheLineSize := 64
      dvrMaxLanes := 128
      dvrEnableDependentPrefetch := true
      template := fun _ =>
        { triggerPC := 0x10
          stridePC := 0x10
          triggerDestination := some 5
          continuePastFLR := true
          uops := { pc := 0x10, semantic := .LoadDouble, destination := some 5, load := true,
                    loadBytes := 8 } :: uops } }
  dvrHelperMaxUops := 64

/-- A lane is launched, starts, and parks at its load. -/
def untilParked : List Event :=
  [.stride { pc := 0x10, replay := some 0 } 0x5000 8 1 true, .service {},
    .complete 1 { raw := 0x6000 }, .issue {} fun _ => {}]

/-- The request it waits for is not translated. -/
def untilFaulted : List Event := untilParked ++ [.service { fault := true }]

def loading : Config := withUops [loadUop, moveUop 0x18]

/-- Its value comes back, and the lane goes on. -/
def untilLoaded : List Event :=
  untilParked ++ [.service {}, .complete 2 { raw := 7 }, .issue {} fun _ => {}]

/-- A lane that parks at a load is awake when its value has come. -/
theorem lanes_awake_loading : Awake loading (untilLoaded.foldl (next loading) (start loading)) :=
  lanes_awake loading untilLoaded (by decide +kernel) untilLoaded (prefix_refl _)

/-- The request is not translated: it is given up, and the lane waits for it. -/
theorem fault_parks_lane : ¬ ∀ (c : Config) (es pre : List Event), pre <+: es →
      Awake c (pre.foldl (next c) (start c)) := by
  intro h
  have hawake := h loading untilFaulted _ (prefix_refl _)
  have hlost : ∃ l ∈ (untilFaulted.foldl (next loading) (start loading)).helper.replayLanes,
      parked l = true ∧ (underWay (untilFaulted.foldl (next loading) (start loading)).queue).countP
          (answers loading l) = 0 := by
    decide +kernel
  obtain ⟨l, hl, hparked, hzero⟩ := hlost
  have hone := hawake.waiting l hl hparked
  cases hone

/-- Two lanes part at the branch; one is at the join when the frame of the other is popped. -/
def untilJoined : List Event :=
  [.stride { pc := 0x10, replay := some 0 } 0x5000 8 2 true, .service {}, .service {},
    .complete 1 { raw := 0 }, .complete 2 { raw := 1 }, .issue {} fun _ => {},
    .issue {} fun _ => {}]

def branching : Config :=
  withUops [branchUop, moveUop 0x18, moveUop 0x1c, moveUop 0x20, moveUop 0x24]

/-- The pop blocks it, and no frame is left to release it. -/
theorem pop_blocks_lane :
    ∃ l ∈ (untilJoined.foldl (next branching) (start branching)).helper.replayLanes,
      l.active = true ∧ l.reconvergenceBlocked = true ∧
        ((untilJoined.foldl (next branching) (start branching)).helper.context l.gen).stack.length
          = 0 := by
  decide +kernel

end Gem5Dvr.ParkedLanes
