/-
  The three sets by which prefetches are deduplicated (`cpu/o3/cpu.cc` 3278-3304, 4848-4915,
  5168-5334, 5358, 5816-5857), over the runs of the prefetch queue.

    * `Mirrors` — the sets are those of the queued addresses, of the queued dependent lines and of
                  the addresses in flight;
    * `Alone`   — what leaves the queue, or comes back, has an address and a line of its own;
    * `mirrors_iff_alone` — the sets mirror the queue and the packets all along a run just when
                  every step of it meets `Alone`.

  The crux: an insertion is always right, and an erasure just when nothing else has the same key
  (`Mirror.erase_cons_iff`).  A lane that needs a value is queued without being compared, so two of
  them may have one address.
-/
import Gem5Dvr.Lib.Mirror
import Gem5Dvr.PrefetchQueue

namespace Gem5Dvr.PrefetchQueue

open List

/-- A dependent request that is not the oracle's. -/
def Prefetch.dependent (p : Prefetch) : Bool := !p.source && !p.oracle

/-- The lines of the dependent requests of a queue. -/
def dependentLines (c : Config) (queue : List Prefetch) : List Addr :=
  (queue.filter Prefetch.dependent).map fun p => c.dvrPrefetchLine p.address

/-- The addresses of packets. -/
def packetAddresses (packets : List Packet) : List Addr :=
  packets.map fun pkt => pkt.request.address

/-- The sets are those of the queue and of the packets in flight. -/
structure Mirrors (c : Config) (s : System) : Prop where
  addresses : Mirror s.dvrQueuedPrefetchAddresses (s.dvrPrefetchQueue.map Prefetch.address)
  lines : Mirror s.dvrQueuedDependentLines (dependentLines c s.dvrPrefetchQueue)
  outstanding : Mirror s.dvrOutstandingPrefetchAddresses (packetAddresses s.inFlight)

/-! ## The condition -/

namespace System

variable (c : Config) (env : Env) (s : System) (prefetch : Prefetch)

/-- The front request is taken out of the queue. -/
def Takes : Prop := prefetch.readyTick ≤ env.now ∧ env.canIssue = true ∧ env.budget = true ∧
    s.dvrHelperLoadQueueOccupancy < DvrHelperLoadQueueCapacity ∧ env.freeEntry prefetch.tid = true

/-- The request is refused by the port, and goes back. -/
def PutsBack : Prop := s.masked prefetch = false ∧
    c.lineOffset prefetch.address + c.dvrPrefetchBytes prefetch ≤ c.cacheLineSize ∧
    env.fault = false ∧ (env.tryTiming = false ∨ env.sendTimingReq = false)

end System

/-- What leaves the queue for good has an address of its own, and a line of its own among the
    dependent requests, unless it is a source; an oracle's request that goes back has such a line
    too; a packet that is answered has an address of its own. -/
def Alone (c : Config) (s : System) : Event → Prop
  | .service env => ∀ p rest, s.dvrPrefetchQueue = p :: rest → s.Takes env p →
    (¬ s.PutsBack c env p → p.address ∉ rest.map Prefetch.address) ∧
      (p.source = false → (p.oracle = true ∨ ¬ s.PutsBack c env p) →
        c.dvrPrefetchLine p.address ∉ dependentLines c rest)
  | .complete id _ => ∀ pkt, (s.inFlight.find? fun pkt => pkt.helperLoadId == id) = some pkt →
    pkt.request.address ∉ packetAddresses (s.inFlight.erase pkt)
  | _ => True

/-! ## Insertions -/

namespace Mirrors

variable {c : Config} {s : System} {p : Prefetch}

theorem init : Mirrors c {} := ⟨.empty, .empty, .empty⟩

theorem pushBack (h : Mirrors c s) (hp : p.dependent = false) : Mirrors c (s.pushBack p) := by
  refine ⟨?_, ?_, h.outstanding⟩
  · show Mirror _ ((s.dvrPrefetchQueue ++ [p]).map _)
    rw [map_append]
    exact h.addresses.concat _
  · show Mirror _ (dependentLines c (s.dvrPrefetchQueue ++ [p]))
    rw [dependentLines, filter_append, filter_singleton, hp, cond_false, append_nil]
    exact h.lines

theorem dependentLines_cons (hp : p.dependent = true) (queue : List Prefetch) :
    dependentLines c (p :: queue) = c.dvrPrefetchLine p.address :: dependentLines c queue := by
  rw [dependentLines, filter_cons_of_pos hp, map_cons]
  rfl

theorem dependentLines_skip (hp : p.dependent = false) (queue : List Prefetch) :
    dependentLines c (p :: queue) = dependentLines c queue := by
  rw [dependentLines, filter_cons_of_neg (by rw [hp]; exact Bool.false_ne_true)]
  rfl

theorem pushFront (h : Mirrors c s) (hp : p.dependent = true) : Mirrors c (s.pushFront c p) := by
  refine ⟨h.addresses.cons _, ?_, h.outstanding⟩
  show Mirror _ (dependentLines c (p :: s.dvrPrefetchQueue))
  rw [dependentLines_cons hp]
  exact h.lines.cons _

/-- A loop that pushes at most one source for each lane. -/
theorem lanes {f : System → Addr × Nat → System}
    (hf : ∀ s a, f s a = s ∨ ∃ p : Prefetch, p.dependent = false ∧ f s a = s.pushBack p)
    (as : List (Addr × Nat)) (h : Mirrors c s) : Mirrors c (as.foldl f s) := by
  induction as generalizing s with
  | nil => exact h
  | cons a as ih =>
    rw [foldl_cons]
    rcases hf s a with hsame | ⟨p, hp, hpush⟩
    · rw [hsame]
      exact ih h
    · rw [hpush]
      exact ih (h.pushBack hp)

theorem launchLane_source (l : Launch) (nested : Bool) (s : System) (a : Addr × Nat) :
    launchLane l nested s a = s ∨
      ∃ p : Prefetch, p.dependent = false ∧ launchLane l nested s a = s.pushBack p := by
  unfold launchLane
  split
  · exact .inl rfl
  · exact .inr ⟨_, rfl, rfl⟩

theorem stride (h : Mirrors c s) (l : Launch) (a d : Addr) (n : Nat) (v : Bool) :
    Mirrors c (launchDVRStridePrefetches l a d n v s) := by
  unfold launchDVRStridePrefetches
  dsimp only
  split
  · exact h
  · exact h.lanes (launchLane_source l false) _

theorem vector (h : Mirrors c s) (tid : Nat) (a pc d : Addr) :
    Mirrors c (vectorRunahead c tid a pc d s) := by
  unfold vectorRunahead
  split
  · have hclear : Mirrors c
        { s with dvrPrefetchQueue := []
                 dvrQueuedPrefetchAddresses := ∅
                 dvrQueuedDependentLines := ∅ } := ⟨.empty, .empty, h.outstanding⟩
    exact hclear.lanes (fun s' _ => .inr ⟨_, rfl, rfl⟩) _
  · exact h

theorem nested (h : Mirrors c s) (l : Launch) (is : List Invocation) (v : Bool) :
    Mirrors c (launchNested l is v s) := by
  unfold launchNested
  dsimp only
  split
  · exact h
  · exact h.lanes (launchLane_source l true) _

theorem oracle (h : Mirrors c s) (tid : Nat) (fs : List Addr) : Mirrors c (oracle tid fs s) := by
  fun_induction PrefetchQueue.oracle tid fs s with
  | case1 => exact h
  | case2 s future rest _ ih => exact ih h
  | case3 => exact h
  | case4 s future rest _ _ ih => exact ih (h.pushBack rfl)

theorem replay (h : Mirrors c s) (t : Target) : Mirrors c (replayInsert c t s) := by
  unfold replayInsert
  dsimp only
  split
  · exact h.pushFront rfl
  · exact h

theorem dependent (h : Mirrors c s) (hp : p.dependent = true) : Mirrors c (s.dependent c p) := by
  unfold System.dependent
  split
  · exact h
  split
  · exact ⟨h.addresses, h.lines, h.outstanding⟩
  · exact h.pushFront hp

theorem affine (h : Mirrors c s) (source : Prefetch) (value : RegVal) (many : Bool)
    (rs : List Affine) : Mirrors c (affine c source value many rs s) := by
  fun_induction PrefetchQueue.affine c source value many rs s with
  | case1 => exact h
  | case2 s r rest _ ih => exact ih h
  | case3 s r rest _ _ _ ih => exact ih h
  | case4 => exact h
  | case5 s r rest _ _ _ _ _ _ ih => exact ih ⟨h.addresses, h.lines, h.outstanding⟩
  | case6 s r rest _ _ _ _ _ _ => exact h.pushFront rfl

theorem followUp (h : Mirrors c s) (source : Prefetch) (a : Answer) :
    Mirrors c (followUp c source a s) := by
  unfold PrefetchQueue.followUp
  split
  · exact h
  split
  · exact h
  split
  · unfold System.replayDVRSource
    split
    · exact h
    split
    · exact h.dependent rfl
    · exact h
  · exact h.affine _ _ _ _

end Mirrors

/-- The requests that follow from a value leave the packets alone. -/
theorem followUp_packets (c : Config) (source : Prefetch) (a : Answer) (s : System) :
    (followUp c source a s).inFlight = s.inFlight ∧
      (followUp c source a s).dvrOutstandingPrefetchAddresses =
        s.dvrOutstandingPrefetchAddresses := by
  have hdependent : ∀ p, (s.dependent c p).inFlight = s.inFlight ∧
      (s.dependent c p).dvrOutstandingPrefetchAddresses =
        s.dvrOutstandingPrefetchAddresses := by
    intro p
    unfold System.dependent
    split
    · exact ⟨rfl, rfl⟩
    split
    · exact ⟨rfl, rfl⟩
    · exact ⟨rfl, rfl⟩
  have haffine : ∀ value many rs (s : System), (affine c source value many rs s).inFlight =
      s.inFlight ∧ (affine c source value many rs s).dvrOutstandingPrefetchAddresses =
        s.dvrOutstandingPrefetchAddresses := by
    intro value many rs s
    fun_induction PrefetchQueue.affine c source value many rs s with
    | case1 => exact ⟨rfl, rfl⟩
    | case2 s r rest _ ih => exact ih
    | case3 s r rest _ _ _ ih => exact ih
    | case4 => exact ⟨rfl, rfl⟩
    | case5 s r rest _ _ _ _ _ _ ih => exact ih
    | case6 => exact ⟨rfl, rfl⟩
  unfold PrefetchQueue.followUp
  split
  · exact ⟨rfl, rfl⟩
  split
  · exact ⟨rfl, rfl⟩
  split
  · unfold System.replayDVRSource
    split
    · exact ⟨rfl, rfl⟩
    split
    · exact hdependent _
    · exact ⟨rfl, rfl⟩
  · exact haffine _ _ _ _

/-! ## What leaves -/

namespace Mirrors

variable {c : Config} {s : System} {p : Prefetch} {rest : List Prefetch}

/-- The queue's two sets, after the front request has been taken out. -/
theorem popFront_iff (h : Mirrors c s) (hs : s.dvrPrefetchQueue = p :: rest) :
    (Mirror (s.popFront c p).dvrQueuedPrefetchAddresses (rest.map Prefetch.address) ↔
        p.address ∉ rest.map Prefetch.address) ∧
      (Mirror (s.popFront c p).dvrQueuedDependentLines (dependentLines c rest) ↔
        (p.source = false → c.dvrPrefetchLine p.address ∉ dependentLines c rest)) := by
  have haddresses := h.addresses
  have hlines := h.lines
  rw [hs] at haddresses hlines
  refine ⟨haddresses.erase_cons_iff, ?_⟩
  unfold System.popFront
  by_cases hsource : p.source = true
  · have hdep : p.dependent = false := by rw [Prefetch.dependent, hsource]; rfl
    rw [Mirrors.dependentLines_skip hdep] at hlines
    simp only [hsource, if_true, Bool.true_eq_false, false_implies, iff_true]
    exact hlines
  · have hsource' : p.source = false := Bool.eq_false_iff.mpr hsource
    simp only [hsource', Bool.false_eq_true, if_false, true_implies]
    by_cases horacle : p.oracle = true
    · have hdep : p.dependent = false := by
        rw [Prefetch.dependent, horacle, hsource']
        rfl
      rw [Mirrors.dependentLines_skip hdep] at hlines
      exact hlines.erase_iff
    · have hdep : p.dependent = true := by
        rw [Prefetch.dependent, hsource', Bool.eq_false_iff.mpr horacle]
        rfl
      rw [Mirrors.dependentLines_cons hdep] at hlines
      exact hlines.erase_cons_iff

/-- The front request is gone, and may be a packet now. -/
theorem gone_iff (h : Mirrors c s) (hs : s.dvrPrefetchQueue = p :: rest) {t : System}
    (hqueue : t.dvrPrefetchQueue = rest)
    (haddresses : t.dvrQueuedPrefetchAddresses = (s.popFront c p).dvrQueuedPrefetchAddresses)
    (hlines : t.dvrQueuedDependentLines = (s.popFront c p).dvrQueuedDependentLines)
    (hout : Mirror t.dvrOutstandingPrefetchAddresses (packetAddresses t.inFlight)) :
    Mirrors c t ↔ p.address ∉ rest.map Prefetch.address ∧
      (p.source = false → c.dvrPrefetchLine p.address ∉ dependentLines c rest) := by
  obtain ⟨hpop, hpopLines⟩ := h.popFront_iff hs
  rw [← hpop, ← hpopLines]
  constructor
  · intro hmirrors
    have hqueued := hmirrors.addresses
    have hdependent := hmirrors.lines
    rw [haddresses, hqueue] at hqueued
    rw [hlines, hqueue] at hdependent
    exact ⟨hqueued, hdependent⟩
  · rintro ⟨hqueued, hdependent⟩
    refine ⟨?_, ?_, hout⟩
    · rw [haddresses, hqueue]
      exact hqueued
    · rw [hlines, hqueue]
      exact hdependent

/-- A request that goes back: only an oracle's may have taken a line with it. -/
theorem requeue_iff (h : Mirrors c s) (hs : s.dvrPrefetchQueue = p :: rest) :
    Mirrors c ((s.popFront c p).requeue c p) ↔ (p.source = false → p.oracle = true →
        c.dvrPrefetchLine p.address ∉ dependentLines c rest) := by
  have hpopLines := (h.popFront_iff hs).2
  have haddresses := h.addresses
  have hlines := h.lines
  have hqueue : ((s.popFront c p).requeue c p).dvrPrefetchQueue = p :: rest := by
    show p :: s.dvrPrefetchQueue.tail = _
    rw [hs]
    rfl
  rw [hs] at haddresses hlines
  have hback : Mirror ((s.popFront c p).requeue c p).dvrQueuedPrefetchAddresses
      ((p :: rest).map Prefetch.address) := haddresses.insert_erase
  have hiff : Mirrors c ((s.popFront c p).requeue c p) ↔
      Mirror ((s.popFront c p).requeue c p).dvrQueuedDependentLines
        (dependentLines c (p :: rest)) := by
    constructor
    · intro hmirrors
      exact hqueue ▸ hmirrors.lines
    · intro hdone
      refine ⟨?_, ?_, h.outstanding⟩
      · rw [hqueue]
        exact hback
      · rw [hqueue]
        exact hdone
  rw [hiff]
  by_cases hdep : p.dependent = true
  · -- the line goes back with the request
    have hflags : p.source = false ∧ p.oracle = false := by
      rw [Prefetch.dependent] at hdep
      simpa using hdep
    rw [dependentLines_cons hdep] at hlines ⊢
    have hdone := hlines.insert_erase
    simpa [System.requeue, System.popFront, hflags] using hdone
  · have hdep' : p.dependent = false := Bool.eq_false_iff.mpr hdep
    have hsame : ((s.popFront c p).requeue c p).dvrQueuedDependentLines =
        (s.popFront c p).dvrQueuedDependentLines := by
      show (if p.dependent = true then _ else _) = _
      rw [if_neg hdep]
    rw [hsame, dependentLines_skip hdep', hpopLines]
    constructor
    · exact fun hline hsource _ => hline hsource
    · intro hline hsource
      refine hline hsource ?_
      rw [Prefetch.dependent, hsource] at hdep'
      simpa using hdep'

/-! ## The two calls that erase -/

theorem service_not_taken (hs : s.dvrPrefetchQueue = p :: rest) {env : Env}
    (htakes : ¬ s.Takes env p) : serviceDVRPrefetchRequest c env s = s := by
  unfold serviceDVRPrefetchRequest
  rw [hs]
  simp only [ite_eq_left_iff]
  intro hready hissue hbudget hcapacity hentry
  refine absurd ⟨Nat.le_of_not_lt hready, ?_, ?_, Nat.lt_of_not_le hcapacity, ?_⟩ htakes
  · simpa using hissue
  · simpa using hbudget
  · simpa using hentry

theorem service_taken (hs : s.dvrPrefetchQueue = p :: rest) {env : Env}
    (htakes : s.Takes env p) : serviceDVRPrefetchRequest c env s =
      if (s.popFront c p).masked p then (s.popFront c p).drop p
      else (s.popFront c p).attempt c env p := by
  obtain ⟨hready, hissue, hbudget, hcapacity, hentry⟩ := htakes
  unfold serviceDVRPrefetchRequest
  rw [hs]
  simp only [if_neg (Nat.not_lt_of_le hready), hissue, hbudget, hentry, Bool.not_true,
    Bool.false_eq_true, if_false, if_neg (Nat.not_le_of_lt hcapacity)]

/-- The port refuses. -/
theorem attempt_putsBack {env : Env} (hback : s.PutsBack c env p) :
    (if (s.popFront c p).masked p then (s.popFront c p).drop p
      else (s.popFront c p).attempt c env p) =
      (((s.popFront c p).allocateEntry).finish_helper_entry s.dvrNextHelperLoadId).requeue c p := by
  obtain ⟨hmasked, hcross, hfault, hport⟩ := hback
  rw [show (s.popFront c p).masked p = false from hmasked, if_neg Bool.false_ne_true]
  unfold System.attempt
  simp only [if_neg (Nat.not_lt_of_le hcross), hfault, Bool.false_eq_true, if_false]
  by_cases htry : env.tryTiming = false
  · simp only [htry, Bool.not_false, if_true]
    rfl
  · have hsend : env.sendTimingReq = false := hport.resolve_left htry
    simp only [hsend, Bool.not_false, if_true, ite_self]
    rfl

/-- Otherwise the request does not come back, and what is sent is noted. -/
theorem attempt_gone (h : Mirrors c s) {env : Env} (hback : ¬ s.PutsBack c env p) {t : System}
    (ht : (if (s.popFront c p).masked p then (s.popFront c p).drop p
      else (s.popFront c p).attempt c env p) = t) :
    t.dvrPrefetchQueue = s.dvrPrefetchQueue.tail ∧
      t.dvrQueuedPrefetchAddresses = (s.popFront c p).dvrQueuedPrefetchAddresses ∧
      t.dvrQueuedDependentLines = (s.popFront c p).dvrQueuedDependentLines ∧
      Mirror t.dvrOutstandingPrefetchAddresses (packetAddresses t.inFlight) := by
  subst ht
  split
  · exact ⟨rfl, rfl, rfl, h.outstanding⟩
  case _ hmasked =>
    unfold System.attempt
    split
    · exact ⟨rfl, rfl, rfl, h.outstanding⟩
    case _ hcross =>
      split
      · exact ⟨rfl, rfl, rfl, h.outstanding⟩
      case _ hfault =>
        have hput : env.tryTiming = false ∨ env.sendTimingReq = false → False := fun hport =>
          hback ⟨Bool.eq_false_iff.mpr hmasked, Nat.le_of_not_lt hcross,
            Bool.eq_false_iff.mpr hfault, hport⟩
        split
        case _ htry => exact (hput (.inl (by simpa using htry))).elim
        case _ =>
          split
          case _ hsend => exact (hput (.inr (by simpa using hsend))).elim
          case _ => exact ⟨rfl, rfl, rfl, h.outstanding.cons _⟩

theorem service_iff (h : Mirrors c s) (env : Env) :
    Mirrors c (serviceDVRPrefetchRequest c env s) ↔ Alone c s (.service env) := by
  cases hs : s.dvrPrefetchQueue with
  | nil =>
    have hsame : serviceDVRPrefetchRequest c env s = s := by
      unfold serviceDVRPrefetchRequest
      rw [hs]
    rw [hsame]
    exact iff_of_true h fun p rest hcons => by rw [hs] at hcons; cases hcons
  | cons p rest =>
    have halone : Alone c s (.service env) ↔ (s.Takes env p →
        (¬ s.PutsBack c env p → p.address ∉ rest.map Prefetch.address) ∧
          (p.source = false → (p.oracle = true ∨ ¬ s.PutsBack c env p) →
            c.dvrPrefetchLine p.address ∉ dependentLines c rest)) := by
      constructor
      · exact fun hall => hall p rest hs
      · rintro hone q rest' hq
        rw [hs] at hq
        cases hq
        exact hone
    rw [halone]
    by_cases htakes : s.Takes env p
    · simp only [htakes, true_implies]
      rw [service_taken hs htakes]
      by_cases hback : s.PutsBack c env p
      · simp only [hback, not_true_eq_false, or_false, false_implies, true_and]
        rw [← h.requeue_iff hs, attempt_putsBack hback]
        exact ⟨fun hm => ⟨hm.addresses, hm.lines, hm.outstanding⟩,
          fun hm => ⟨hm.addresses, hm.lines, hm.outstanding⟩⟩
      · simp only [hback, not_false_eq_true, or_true, true_implies]
        obtain ⟨hqueue, haddresses, hlines, hout⟩ := attempt_gone h hback rfl
        exact h.gone_iff hs (by rw [hqueue, hs]; rfl) haddresses hlines hout
    · rw [service_not_taken hs htakes]
      exact iff_of_true h fun ht => absurd ht htakes

/-- A response: its packet's address is erased. -/
theorem account_iff (h : Mirrors c s) {pkt : Packet} (hpkt : pkt ∈ s.inFlight) :
    Mirrors c (s.account c pkt) ↔ pkt.request.address ∉ packetAddresses (s.inFlight.erase pkt) := by
  have hperm : (packetAddresses s.inFlight).Perm
      (pkt.request.address :: packetAddresses (s.inFlight.erase pkt)) :=
    (List.perm_cons_erase hpkt).map fun pkt : Packet => pkt.request.address
  rw [← (h.outstanding.perm hperm).erase_cons_iff]
  exact ⟨fun hm => hm.outstanding, fun hout => ⟨h.addresses, h.lines, hout⟩⟩

theorem complete_iff (h : Mirrors c s) {pkt : Packet} (hpkt : pkt ∈ s.inFlight) (a : Answer) :
    Mirrors c (completeDVRPrefetch c pkt a s) ↔
      pkt.request.address ∉ packetAddresses (s.inFlight.erase pkt) := by
  rw [← h.account_iff hpkt]
  unfold completeDVRPrefetch
  split
  · obtain ⟨hflight, hout⟩ := followUp_packets c pkt.request a (s.account c pkt)
    constructor
    · intro hm
      have houtstanding := hm.outstanding
      refine ⟨h.addresses, h.lines, ?_⟩
      rw [← hflight, ← hout]
      exact houtstanding
    · intro hm
      have hfollow := hm.followUp pkt.request a
      exact ⟨hfollow.addresses, hfollow.lines, hfollow.outstanding⟩
  · exact ⟨fun hm => ⟨hm.addresses, hm.lines, hm.outstanding⟩,
      fun hm => ⟨hm.addresses, hm.lines, hm.outstanding⟩⟩

/-- One call keeps the sets right just when what it erases is alone. -/
theorem step_iff (h : Mirrors c s) (e : Event) : Mirrors c (step c s e) ↔ Alone c s e := by
  cases e with
  | stride l a d n v => exact iff_of_true (h.stride l a d n v) trivial
  | vector tid a pc d => exact iff_of_true (h.vector tid a pc d) trivial
  | nested l is v => exact iff_of_true (h.nested l is v) trivial
  | oracle tid fs => exact iff_of_true (h.oracle tid fs) trivial
  | replay t => exact iff_of_true (h.replay t) trivial
  | demand a => exact iff_of_true ⟨h.addresses, h.lines, h.outstanding⟩ trivial
  | service env => exact h.service_iff env
  | complete id a =>
    unfold PrefetchQueue.step Alone
    dsimp only
    cases hfind : s.inFlight.find? fun pkt => pkt.helperLoadId == id with
    | none => exact iff_of_true h fun pkt hpkt => by cases hpkt
    | some pkt =>
      have hpkt := mem_of_find?_eq_some hfind
      refine (h.complete_iff hpkt a).trans ⟨?_, fun hall => hall pkt rfl⟩
      rintro hone _ ⟨⟩
      exact hone

end Mirrors

/-- Along a run, the sets mirror the queue and the packets in every state just when everything that
    leaves is alone with its address and its line. -/
theorem mirrors_iff_alone (c : Config) (es : List Event) :
    (∀ pre, pre <+: es → Mirrors c (pre.foldl (step c) {})) ↔
      Trace.Admits (Alone c) (step c) {} es :=
  Trace.admits_iff_prefix (Mirrors c) (Mirrors c) (fun _ => True)
    (fun _ e h _ hok => (h.step_iff e).mpr hok) (fun _ h => h)
    (fun _ e h _ hne hm => hne ((h.step_iff e).mp hm)) .init (fun _ _ => trivial)

/-- A replay template whose loads return their values. -/
def valueLine64 : Config := { line64 with template := fun _ => { continuePastFLR := true } }

/-- Two lanes wait for the value at one address. -/
def twins : List Event := [.replay { address := 0x5000, pc := 0x10, replay := 0, lane := 0 },
    .replay { address := 0x5000, pc := 0x10, replay := 0, lane := 1 }]

/-- When the first request is sent, the queued second
    one is in neither set; when the first packet is answered, the second one in flight is not. -/
theorem twin_requests_lost :
    ¬ Mirrors valueLine64 ((twins ++ [Event.service {}]).foldl (step valueLine64) {}) ∧
      ¬ Mirrors valueLine64 ((twins ++ [Event.service {}, .service {}, .complete 1 {}]).foldl
        (step valueLine64) {}) := by
  refine ⟨fun h => absurd (h.addresses 0x5000) ?_, fun h => absurd (h.outstanding 0x5000) ?_⟩
  · decide
  · decide

end Gem5Dvr.PrefetchQueue
