import Muduo.Library.RoundRobin
import Muduo.Poller.Mirror

/-!
# Polling

`epoll_wait` fills `events_` from the descriptors that are ready, round robin where there
are more of them than fit, and leaves a level-triggered descriptor among the ready ones.
`EpollPoller::poll` hands the channels on and doubles `events_` each time it came back
full.
-/

namespace Muduo

/-- `epoll_event`: the events reported and `data.ptr`. -/
structure EpollEvent where
  events : EventMask
  ptr : Nat
  deriving DecidableEq, Repr

/-- What the kernel adds to every watched mask. -/
def EPOLLALWAYS : EventMask := EPOLLERR ||| EPOLLHUP

namespace EpollPoller

def kInitEventListSize : Nat := 16

/-- The kernel reports the first ready descriptors, as many as fit. -/
def epoll_wait (k : InterestSet) (rdlist : List Nat) (revents : Nat → EventMask)
    (maxevents : Nat) : List EpollEvent :=
  (rdlist.take maxevents).filterMap fun fd => (k fd).map fun e => ⟨revents fd, e.2⟩

/-- The channels with their `revents_`, in the order of `events_`. -/
def fillActiveChannels (events : List EpollEvent) (activeChannels : List (Nat × EventMask)) :
    List (Nat × EventMask) :=
  activeChannels ++ events.map fun e => (e.ptr, e.events)

/-- `poll`, given the size of `events_` and what `epoll_wait` returned; the new size and the
active channels. -/
def poll (size : Nat) (result : Except Errno (List EpollEvent))
    (activeChannels : List (Nat × EventMask)) : Nat × List (Nat × EventMask) :=
  match result with
  | .ok events =>
    let numEvents := events.length
    if numEvents > 0 then
      (if numEvents = size then size * 2 else size, fillActiveChannels events activeChannels)
    else (size, activeChannels)
  | .error _ => (size, activeChannels)

end EpollPoller

/-! ## The poller at work -/

/-- A poller with its channels, the descriptors that the kernel holds ready, and the result of
the last poll. -/
structure PollingLoop (ι : Type*) where
  set : ChannelSet ι
  /-- the size of the vector `events_` -/
  events_ : Nat := EpollPoller.kInitEventListSize
  rdlist : List Nat := []
  activeChannels_ : List (Nat × EventMask) := []
  /-- the most descriptors that were ready at a poll -/
  peak : Nat := 0

inductive PollStep (ι : Type*) where
  | perform (op : ChannelOp) (i : ι)
  | becomesReady (fd : Nat)
  | ceases (fd : Nat)
  | poll (revents : Nat → EventMask)
  | pollFails (errno : Errno)

/-- The step is a poll that returned. -/
def PollStep.isPoll {ι : Type*} : PollStep ι → Bool
  | .poll _ => true
  | _ => false

namespace PollingLoop

variable {ι : Type*} [DecidableEq ι]

/-- The mask under which the kernel watches a descriptor. -/
def watched (s : PollingLoop ι) (fd : Nat) : Option EventMask :=
  (s.set.poller.interest fd).map Prod.fst

/-- Some event, and none but those watched for and those always reported. -/
def Reports (s : PollingLoop ι) (fd : Nat) (events : EventMask) : Prop :=
  events ≠ 0 ∧ ∃ m, s.watched fd = some m ∧ events &&& ~~~(m ||| EPOLLALWAYS) = 0

omit [DecidableEq ι] in
theorem reports_iff {s : PollingLoop ι} {fd : Nat} {events : EventMask} :
    s.Reports fd events ↔ events ≠ 0 ∧
      (s.watched fd).any (fun m => events &&& ~~~(m ||| EPOLLALWAYS) == 0) = true := by
  unfold Reports
  cases s.watched fd <;> simp

instance (s : PollingLoop ι) (fd : Nat) (events : EventMask) : Decidable (s.Reports fd events) :=
  decidable_of_iff' _ reports_iff

def step (s : PollingLoop ι) : PollStep ι → Option (PollingLoop ι)
  | .perform op i =>
    (s.set.step (op, i)).map fun set =>
      { s with
        set := set
        rdlist :=
          -- `EPOLL_CTL_DEL` takes the descriptor from the ready ones as well
          if (set.poller.interest (s.set.channel i).fd_).isSome then s.rdlist
          else s.rdlist.erase (s.set.channel i).fd_ }
  | .becomesReady fd =>
    if (s.set.poller.interest fd).isSome then
      some { s with rdlist := RoundRobin.enqueue s.rdlist fd }
    else none
  | .ceases fd => some { s with rdlist := s.rdlist.erase fd }
  | .poll revents =>
    if ∀ fd ∈ s.rdlist.take s.events_, s.Reports fd (revents fd) then
      let result := EpollPoller.poll s.events_
        (.ok (EpollPoller.epoll_wait s.set.poller.interest s.rdlist revents s.events_)) []
      some { s with
        events_ := result.1
        activeChannels_ := result.2
        rdlist := RoundRobin.serve s.rdlist s.events_
        peak := max s.peak s.rdlist.length }
    else none
  | .pollFails errno =>
    let result := EpollPoller.poll s.events_ (.error errno) []
    some { s with events_ := result.1, activeChannels_ := result.2 }

def machine (ι : Type*) [DecidableEq ι] : Machine (PollingLoop ι) (PollStep ι) where
  init s := ∃ set, ChannelSet.Fresh set ∧ s = { set := set }
  step := step

variable {s t : PollingLoop ι}

/-- Ready descriptors are watched, each waits once, and `events_` has grown by doubling, to no
more than twice what was ever ready. -/
structure Polled (s : PollingLoop ι) : Prop where
  mirrored : s.set.Mirrored
  nodup : s.rdlist.Nodup
  watched : ∀ fd ∈ s.rdlist, (s.set.poller.interest fd).isSome = true
  doubled : ∃ k, s.events_ = EpollPoller.kInitEventListSize * 2 ^ k
  bounded : s.events_ ≤ max EpollPoller.kInitEventListSize (2 * s.peak)

omit [DecidableEq ι] in
theorem Polled.pos (h : Polled s) : 0 < s.events_ := by
  obtain ⟨k, hk⟩ := h.doubled
  exact hk ▸ Nat.mul_pos (by decide) (Nat.two_pow_pos k)

/-- Where every ready descriptor is watched the kernel reports as many as fit. -/
theorem length_epoll_wait {k : InterestSet} {rdlist : List Nat} {revents : Nat → EventMask}
    {n : Nat} (h : ∀ fd ∈ rdlist, (k fd).isSome = true) :
    (EpollPoller.epoll_wait k rdlist revents n).length = min n rdlist.length := by
  have hall : ∀ fd ∈ rdlist.take n, (((k fd).map fun e => (⟨revents fd, e.2⟩ : EpollEvent))).isSome := by
    intro fd hfd
    simpa using h fd (List.mem_of_mem_take hfd)
  rw [EpollPoller.epoll_wait, List.length_filterMap_eq_countP, List.countP_eq_length.mpr hall,
    List.length_take]

/-- A poll serves the ready descriptors and doubles `events_` when it was filled. -/
theorem poll_cases (h : Polled s) {revents : Nat → EventMask}
    (hst : s.step (.poll revents) = some t) :
    (∀ fd ∈ s.rdlist.take s.events_, s.Reports fd (revents fd)) ∧
      t = { s with
        events_ := if s.events_ ≤ s.rdlist.length then s.events_ * 2 else s.events_
        activeChannels_ := EpollPoller.fillActiveChannels
          (EpollPoller.epoll_wait s.set.poller.interest s.rdlist revents s.events_) []
        rdlist := RoundRobin.serve s.rdlist s.events_
        peak := max s.peak s.rdlist.length } := by
  obtain ⟨hrep, hst⟩ := Option.ite_none_right_eq_some.mp hst
  refine ⟨hrep, ?_⟩
  obtain rfl := Option.some.inj hst
  have hlen := @length_epoll_wait _ _ revents s.events_ h.watched
  have hpos := h.pos
  by_cases hz : s.rdlist = []
  · simp [EpollPoller.poll, EpollPoller.epoll_wait, hz, EpollPoller.fillActiveChannels]
    omega
  · have hne := List.length_pos_iff.mpr hz
    have hfull : min s.events_ s.rdlist.length = s.events_ ↔ s.events_ ≤ s.rdlist.length := by omega
    simp [EpollPoller.poll, hlen, hpos, hne, hfull]

theorem Polled.poll (h : Polled s) {revents : Nat → EventMask}
    (hst : s.step (.poll revents) = some t) : Polled t := by
  obtain ⟨-, rfl⟩ := poll_cases h hst
  refine ⟨h.mirrored, RoundRobin.nodup_serve.mpr h.nodup, ?_, ?_, ?_⟩
  · intro fd hfd
    exact h.watched fd (RoundRobin.mem_serve.mp hfd)
  · obtain ⟨k, hk⟩ := h.doubled
    dsimp only
    split
    · exact ⟨k + 1, by rw [hk, pow_succ, Nat.mul_assoc]⟩
    · exact ⟨k, hk⟩
  · have hb := h.bounded
    dsimp only
    split <;> omega

theorem Polled.perform (h : Polled s) {op : ChannelOp} {i : ι}
    (hst : s.step (.perform op i) = some t) : Polled t := by
  obtain ⟨set, hset, rfl⟩ := Option.map_eq_some_iff.mp hst
  have hm := h.mirrored.step hset
  obtain ⟨p, ch, hr, rfl⟩ := ChannelSet.step_cases hset
  refine ⟨hm, ?_, ?_, h.doubled, h.bounded⟩
  · dsimp only
    split
    · exact h.nodup
    · exact h.nodup.erase _
  · intro fd hfd
    by_cases hi : fd = (s.set.channel i).fd_
    · subst hi
      dsimp only at hfd ⊢
      split at hfd
      · assumption
      · exact absurd hfd h.nodup.not_mem_erase
    · have hold : fd ∈ s.rdlist := by
        dsimp only at hfd
        split at hfd
        · exact hfd
        · exact List.mem_of_mem_erase hfd
      have hsame := (ChannelOp.perform_of_ne hr hi).2
      exact hsame.symm ▸ h.watched fd hold

theorem Polled.step (h : Polled s) {l : PollStep ι} (hst : s.step l = some t) : Polled t := by
  cases l with
  | perform op i => exact h.perform hst
  | becomesReady fd =>
    obtain ⟨hfd, hst⟩ := Option.ite_none_right_eq_some.mp hst
    obtain rfl := Option.some.inj hst
    refine ⟨h.mirrored, RoundRobin.nodup_enqueue h.nodup, ?_, h.doubled, h.bounded⟩
    intro x hx
    rcases RoundRobin.mem_enqueue.mp hx with hx | rfl
    · exact h.watched x hx
    · exact hfd
  | ceases fd =>
    obtain rfl := Option.some.inj hst
    exact ⟨h.mirrored, h.nodup.erase fd, fun x hx => h.watched x (List.mem_of_mem_erase hx),
      h.doubled, h.bounded⟩
  | poll revents => exact h.poll hst
  | pollFails errno =>
    obtain rfl := Option.some.inj hst
    exact ⟨h.mirrored, h.nodup, h.watched, h.doubled, h.bounded⟩

theorem polled (h : (machine ι).Reachable s) : Polled s := by
  refine h.invariant ?_ fun s l t hs _ hst => hs.step hst
  rintro s ⟨set, hset, rfl⟩
  exact ⟨ChannelSet.mirrored_of_fresh hset, by simp, by simp, ⟨0, rfl⟩, le_max_left _ _⟩

/-! ## What a poll reports -/

omit [DecidableEq ι] in
/-- A ready descriptor is that of a channel that epoll watches. -/
theorem Polled.owner (h : Polled s) {fd : Nat} (hfd : fd ∈ s.rdlist) :
    ∃ i, (s.set.channel i).fd_ = fd ∧ Watched s.set.poller (s.set.channel i) := by
  have hint := h.watched fd hfd
  obtain ⟨i, rfl⟩ : ∃ i, fd = (s.set.channel i).fd_ := by
    by_contra hn
    push Not at hn
    simp [(h.mirrored.known fd hn).2] at hint
  refine ⟨i, rfl, ?_⟩
  cases h.mirrored.registered i with
  | watched hw => exact hw
  | absent ha => simp [ha.interest] at hint
  | parked hp => simp [hp.interest] at hint

/-- A poll fills `activeChannels_` with distinct channels of the poller, as many as are ready
or fit, and reports to each of them events that it watches for or that are always reported. -/
theorem poll_reports (h : (machine ι).Reachable s) {revents : Nat → EventMask}
    (hst : s.step (.poll revents) = some t) :
    ∃ is : List ι, is.Nodup ∧ is.map (fun i => (s.set.channel i).fd_) = s.rdlist.take s.events_ ∧
      t.activeChannels_ =
        is.map (fun i => ((s.set.channel i).addr, revents (s.set.channel i).fd_)) ∧
      ∀ i ∈ is, (s.set.channel i).index_ = .kAdded ∧
        s.set.poller.hasChannel (s.set.channel i) = true ∧
        revents (s.set.channel i).fd_ ≠ 0 ∧
        revents (s.set.channel i).fd_ &&& ~~~((s.set.channel i).events_ ||| EPOLLALWAYS) = 0 := by
  have hp := polled h
  obtain ⟨hrep, rfl⟩ := poll_cases hp hst
  obtain ⟨is, his⟩ : s.rdlist.take s.events_ ∈
      Set.range (List.map fun i => (s.set.channel i).fd_) := by
    rw [Set.range_list_map]
    intro fd hfd
    obtain ⟨i, hi, -⟩ := hp.owner (List.mem_of_mem_take hfd)
    exact ⟨i, hi⟩
  have hwatched : ∀ i ∈ is, Watched s.set.poller (s.set.channel i) := by
    intro i hi
    have hmem : (s.set.channel i).fd_ ∈ s.rdlist.take s.events_ := his ▸ List.mem_map_of_mem hi
    obtain ⟨j, hj, hw⟩ := hp.owner (List.mem_of_mem_take hmem)
    exact hp.mirrored.distinct hj ▸ hw
  refine ⟨is, ?_, his, ?_, ?_⟩
  · exact .of_map _ (his ▸ hp.nodup.sublist (List.take_sublist _ _))
  · rw [EpollPoller.fillActiveChannels, EpollPoller.epoll_wait, ← his, List.filterMap_map,
      List.nil_append, List.map_filterMap, ← List.filterMap_eq_map]
    refine List.filterMap_congr fun i hi => ?_
    simp [(hwatched i hi).interest]
  · intro i hi
    have hw := hwatched i hi
    obtain ⟨hne, m, hm, hsub⟩ := hrep _ (his ▸ List.mem_map_of_mem hi)
    have hmask : m = (s.set.channel i).events_ := by
      simpa [PollingLoop.watched, hw.interest] using hm.symm
    refine ⟨hw.index, ?_, hne, hmask ▸ hsub⟩
    simp [EpollPoller.hasChannel, hw.channels]

/-- A loop with a channel for every descriptor. -/
def idle : PollingLoop Nat := { set := { channel := fun i => { addr := 64 * i, fd_ := i } } }

theorem init_idle : (machine Nat).init idle :=
  ⟨_, ⟨⟨fun i => 64 * i, fun i => i, fun _ _ h => h, rfl⟩, rfl, rfl⟩, rfl⟩

/-- Eighteen connections become ready to be read. -/
def crowd : List (PollStep Nat) :=
  (List.range 18).flatMap fun i => [.perform .enableReading i, .becomesReady i]

theorem poll_reports_crowd :
    ∃ s, (machine Nat).run idle crowd = some s ∧
      ∀ t, s.step (.poll fun _ => EPOLLIN) = some t →
      ∃ is : List Nat, is.Nodup ∧
        is.map (fun i => (s.set.channel i).fd_) = s.rdlist.take s.events_ ∧
        t.activeChannels_ = is.map (fun i => ((s.set.channel i).addr, EPOLLIN)) ∧
        ∀ i ∈ is, (s.set.channel i).index_ = .kAdded ∧
          s.set.poller.hasChannel (s.set.channel i) = true ∧ EPOLLIN ≠ 0 ∧
          EPOLLIN &&& ~~~((s.set.channel i).events_ ||| EPOLLALWAYS) = 0 :=
  Machine.exists_run init_idle (by decide +kernel) fun _ _ h _ hst => poll_reports h hst

/-! ## How long a descriptor waits -/

/-- The descriptor stays ready, and is missed if the step is a poll. -/
def Waits (fd : Nat) (s : PollingLoop ι) (l : PollStep ι) : Prop :=
  (∀ t, s.step l = some t → fd ∈ t.rdlist) ∧ (l.isPoll = true → fd ∉ s.rdlist.take s.events_)

/-- A poll that misses a descriptor was full. -/
theorem poll_missed (h : Polled s) {fd : Nat} (hfd : fd ∈ s.rdlist) {l : PollStep ι}
    (hw : Waits fd s l) (hl : l.isPoll = true) (hst : s.step l = some t) :
    t.rdlist.idxOf fd + s.events_ = s.rdlist.idxOf fd ∧ t.events_ = 2 * s.events_ := by
  cases l with
  | poll revents =>
    have hmiss := hw.2 hl
    obtain ⟨-, rfl⟩ := poll_cases h hst
    refine ⟨RoundRobin.idxOf_serve hfd hmiss, ?_⟩
    have hfull := RoundRobin.length_take_of_missed hfd hmiss
    rw [List.length_take] at hfull
    rw [if_pos (by omega), Nat.mul_comm]
  | _ => contradiction

/-- Between polls nothing overtakes a descriptor that waits. -/
theorem place_of_waits {fd : Nat} (hfd : fd ∈ s.rdlist) {l : PollStep ι}
    (hnodup : s.rdlist.Nodup) (hw : Waits fd s l) (hl : l.isPoll = false)
    (hst : s.step l = some t) :
    t.rdlist.idxOf fd ≤ s.rdlist.idxOf fd ∧ t.events_ = s.events_ := by
  have hstays := hw.1 t hst
  have herase : ∀ x, fd ∈ s.rdlist.erase x → (s.rdlist.erase x).idxOf fd ≤ s.rdlist.idxOf fd := by
    intro x hx
    refine RoundRobin.idxOf_erase_le ?_
    rintro rfl
    exact hnodup.not_mem_erase hx
  cases l with
  | perform op i =>
    obtain ⟨set, -, rfl⟩ := Option.map_eq_some_iff.mp hst
    refine ⟨?_, rfl⟩
    dsimp only at hstays ⊢
    split
    · exact le_rfl
    · rw [if_neg ‹_›] at hstays
      exact herase _ hstays
  | becomesReady x =>
    obtain ⟨-, hst⟩ := Option.ite_none_right_eq_some.mp hst
    obtain rfl := Option.some.inj hst
    exact ⟨(RoundRobin.idxOf_enqueue hfd).le, rfl⟩
  | ceases x =>
    obtain rfl := Option.some.inj hst
    exact ⟨herase x hstays, rfl⟩
  | poll revents => contradiction
  | pollFails errno =>
    obtain rfl := Option.some.inj hst
    exact ⟨le_rfl, rfl⟩

/-- A ready descriptor that `j` polls in a row miss had at least `events_ * (2 ^ j - 1)` others
before it, so the number of such polls is logarithmic in the number of ready descriptors,
whatever is enabled, disabled, removed or becomes ready in between. -/
theorem missed_polls (h : (machine ι).Reachable s) {fd : Nat} (hfd : fd ∈ s.rdlist)
    {ls : List (PollStep ι)} (along : (machine ι).Along (Waits fd) s ls)
    (hrun : (machine ι).run s ls = some t) :
    s.events_ * (2 ^ ls.countP PollStep.isPoll - 1) ≤ s.rdlist.idxOf fd := by
  have hwindow := Machine.doubling_window (fun s => Polled s ∧ fd ∈ s.rdlist)
    PollStep.isPoll (fun s => s.rdlist.idxOf fd) PollingLoop.events_
    (fun s l t hs hw hst => ⟨hs.1.step hst, hw.1 t hst⟩)
    (fun s l t hs hw hst hl => poll_missed hs.1 hs.2 hw hl hst)
    (fun s l t hs hw hst hl => place_of_waits hs.2 hs.1.nodup hw hl hst)
    ⟨polled h, hfd⟩ along hrun
  rw [Nat.mul_sub, Nat.mul_one]
  omega

/-- The last of the crowd is missed by one poll, which doubles `events_`. -/
theorem missed_polls_crowd :
    ∃ s, (machine Nat).run idle crowd = some s ∧ s.events_ * (2 ^ 1 - 1) ≤ s.rdlist.idxOf 17 := by
  have hall : ((machine Nat).run idle (crowd ++ [.poll fun _ => EPOLLIN])).isSome = true := by
    decide +kernel
  refine Machine.exists_run init_idle (by decide +kernel) fun s hs h => ?_
  rw [Machine.run_append, hs] at hall
  obtain ⟨t, ht⟩ := Option.isSome_iff_exists.mp hall
  have hready : (s.rdlist, s.events_) = (List.range 18, 16) := by
    have hrun : ((machine Nat).run idle crowd).map (fun s => (s.rdlist, s.events_)) =
        some (List.range 18, 16) := by decide +kernel
    rw [hs] at hrun
    exact Option.some.inj hrun
  obtain ⟨hlist, hsize⟩ := Prod.mk.inj hready
  have halong : (machine Nat).Along (Waits 17) s [.poll fun _ => EPOLLIN] := by
    refine ⟨⟨?_, ?_⟩, fun _ _ => trivial⟩
    · intro u hu
      obtain ⟨-, rfl⟩ := poll_cases (polled h) hu
      exact RoundRobin.mem_serve.mpr (by simp [hlist])
    · simp [hlist, hsize, List.range, List.range.loop]
  exact missed_polls h (by simp [hlist]) halong ht

/-- The size of `events_` is `16 * 2 ^ k`, and no more than twice the most descriptors that were
ever ready at a poll; below `2 ^ 30` of these its conversion to `int` is exact. -/
theorem events_bounded (h : (machine ι).Reachable s) :
    (∃ k, s.events_ = EpollPoller.kInitEventListSize * 2 ^ k) ∧
      s.events_ ≤ max EpollPoller.kInitEventListSize (2 * s.peak) ∧
      (s.peak < 2 ^ 30 → (BitVec.ofNat 32 s.events_).toInt = s.events_) := by
  have hp := polled h
  refine ⟨hp.doubled, hp.bounded, ?_⟩
  intro hpeak
  have hb := hp.bounded
  have hsize : s.events_ < 2 ^ 31 := by
    rw [EpollPoller.kInitEventListSize] at hb
    omega
  rw [BitVec.toInt_eq_toNat_of_lt, BitVec.toNat_ofNat, Nat.mod_eq_of_lt (by omega)]
  rw [BitVec.toNat_ofNat, Nat.mod_eq_of_lt (by omega)]
  omega

theorem events_bounded_crowd :
    ∃ s, (machine Nat).run idle (crowd ++ [.poll fun _ => EPOLLIN]) = some s ∧
      (∃ k, s.events_ = EpollPoller.kInitEventListSize * 2 ^ k) ∧
      s.events_ ≤ max EpollPoller.kInitEventListSize (2 * s.peak) ∧
      (s.peak < 2 ^ 30 → (BitVec.ofNat 32 s.events_).toInt = s.events_) :=
  Machine.exists_run init_idle (by decide +kernel) fun _ _ h => events_bounded h

end PollingLoop

end Muduo
