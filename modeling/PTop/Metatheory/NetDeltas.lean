import PTop.Metatheory.Conservation

/-!
# Which network deltas reach the tables

A row records two network deltas, as floats, but the activity test that decides
whether there is a row does not look at the network counters. The next cycle
compares with the sample of this one all the same, so an idle cycle loses its deltas.
-/

namespace PTop

open Framework AvlTree

/-- One direction of the traffic of a process: its total in a sample, and the
field of a row that holds the difference of two totals. -/
structure NetChannel where
  total : Net → u64
  total_zero : total {} = 0
  delta : ProcessInfo → XFloat
  delta_row : ∀ conf time itv old new, delta (processRow conf time itv old new) =
    conf.stored (u64Subcount (total new.net) (total old.net))

def netsnd : NetChannel := ⟨Net.totalnetsnd, rfl, ProcessInfo.netsnd, fun _ _ _ _ _ => rfl⟩

def netrcv : NetChannel := ⟨Net.totalnetrcv, rfl, ProcessInfo.netrcv, fun _ _ _ _ _ => rfl⟩

/-- The total a process shows in a cycle. -/
def rawNet (ch : NetChannel) (conf : Conf) (pid : Pid) (inp : CycleInput) : ℕ :=
  (ch.total (readFiles conf pid.val (inp.files pid)).2.net).toNat

/-- What the rows of a process in a cycle record. -/
def netCharge (ch : NetChannel) (pid : Pid) (out : CycleOutput) : ℚ :=
  ((rowsOf pid out.rows).map fun r => (ch.delta r).toRat).sum

/-- The total the next cycle compares with. -/
def keptNet (ch : NetChannel) (s : PtopState) (pid : Pid) : ℕ :=
  (ch.total (keptSlot s pid).net).toNat

/-- What a cycle adds to the total of a process. -/
def netDelta (ch : NetChannel) (conf : Conf) (pid : Pid) (s : PtopState) (inp : CycleInput) : ℕ :=
  rawNet ch conf pid inp - keptNet ch s pid

/-- What a cycle records of it: nothing of a process that looks idle, else what a float holds. -/
def netRecorded (ch : NetChannel) (conf : Conf) (pid : Pid) (s : PtopState) (inp : CycleInput) :
    ℚ :=
  if LooksIdle conf pid s inp then 0 else conf.float (netDelta ch conf pid s inp)

/-- The totals shown in a sequence of cycles never fall. -/
def NetNondecreasing (ch : NetChannel) (conf : Conf) (pid : Pid) (inps : List CycleInput) : Prop :=
  EachAfter (fun before inp =>
    lastOf (before.map (rawNet ch conf pid)) ≤ rawNet ch conf pid inp) inps

instance (ch : NetChannel) (conf : Conf) (pid : Pid) (inps : List CycleInput) :
    Decidable (NetNondecreasing ch conf pid inps) := inferInstanceAs (Decidable (EachAfter _ _))

/-- What the cycles `cs` record is the last total shown in the cycles `mid`. -/
def ChannelConserved (ch : NetChannel) (conf : Conf) (pid : Pid) (cs mid : List PtopCycle) : Prop :=
  (cs.map fun c => netCharge ch pid c.output).sum =
    lastOf (mid.map fun c => rawNet ch conf pid c.input)

/-- A cycle in which the process looks idle does not move the total. -/
def ChannelStill (ch : NetChannel) (conf : Conf) (pid : Pid) (c : PtopCycle) : Prop :=
  LooksIdle conf pid c.pre c.input → netDelta ch conf pid c.pre c.input = 0

/-- In any other cycle a float holds what it adds. -/
def ChannelHeld (ch : NetChannel) (conf : Conf) (pid : Pid) (c : PtopCycle) : Prop :=
  ¬ LooksIdle conf pid c.pre c.input →
    conf.float (netDelta ch conf pid c.pre c.input) = netDelta ch conf pid c.pre c.input

instance (ch : NetChannel) (conf : Conf) (pid : Pid) (c : PtopCycle) :
    Decidable (ChannelStill ch conf pid c) := inferInstanceAs (Decidable (_ → _))

instance (ch : NetChannel) (conf : Conf) (pid : Pid) (c : PtopCycle) :
    Decidable (ChannelHeld ch conf pid c) := inferInstanceAs (Decidable (_ → _))

/-- A cycle records what it adds to the totals of a process. -/
structure NetRecorded (conf : Conf) (pid : Pid) (c : PtopCycle) : Prop where
  still : ChannelStill netsnd conf pid c ∧ ChannelStill netrcv conf pid c
  held : ChannelHeld netsnd conf pid c ∧ ChannelHeld netrcv conf pid c

instance (conf : Conf) (pid : Pid) (c : PtopCycle) : Decidable (NetRecorded conf pid c) :=
  decidable_of_iff ((ChannelStill netsnd conf pid c ∧ ChannelStill netrcv conf pid c) ∧
    ChannelHeld netsnd conf pid c ∧ ChannelHeld netrcv conf pid c)
    ⟨fun h => ⟨h.1, h.2⟩, fun h => ⟨h.still, h.held⟩⟩

/-! ## One cycle -/

section Cycle

variable {conf : Conf} {pid : Pid} {inp : CycleInput} {s s' : PtopState} {out : CycleOutput}

variable (conf pid) in
theorem storedSample_net {f : ProcFiles} (fd : PCFile) (h : Readable f) :
    (storedSample conf pid f fd).net = (readFiles conf pid.val f).2.net := by
  rw [storedSample, if_pos h]

/-- **The account of one cycle**: it keeps the total it read and records what it has to. -/
theorem CycleFacts.net_account (hf : CycleFacts conf inp s s' out) (hs : StateOk s)
    (hp : pid ∈ inp.listing) (hread : Readable (inp.files pid)) (ch : NetChannel)
    (hle : keptNet ch s pid ≤ rawNet ch conf pid inp) :
    keptNet ch s' pid = rawNet ch conf pid inp ∧
      netCharge ch pid out = netRecorded ch conf pid s inp := by
  have hnet := storedSample_net conf pid (keptFd s pid) hread
  have hsame := sameActivity_storedSample conf pid (s := s) (keptFd s pid) hread
  cases hf.listedCycle hs hp hread with
  | reported hdiff hrow hslot =>
      have hkept : keptNet ch s' pid = rawNet ch conf pid inp := by
        rw [keptNet, hslot, rawNet, ← hnet]
        rfl
      have hsub : (u64Subcount (ch.total (readFiles conf pid.val (inp.files pid)).2.net)
          (ch.total (keptSlot s pid).net)).toNat = netDelta ch conf pid s inp :=
        toNat_u64Subcount_of_le hle
      refine ⟨hkept, ?_⟩
      rw [netCharge, hrow, List.map_singleton, List.sum_singleton, ch.delta_row, netRecorded,
        if_neg (mt hsame.mpr hdiff), ← hsub, ← hnet]
      rfl
  | idle hidle hrow hslot =>
      refine ⟨?_, ?_⟩
      · rw [keptNet, hslot, hnet]
        rfl
      · rw [netCharge, hrow, netRecorded, if_pos (hsame.mp hidle)]
        rfl

end Cycle

/-! ## A run -/

/-- The account of the cycles `cs`, of which the cycles `mid` have sampled the process. -/
structure NetAccount (ch : NetChannel) (conf : Conf) (pid : Pid) (cs mid : List PtopCycle)
    (s : PtopState) : Prop where
  kept : keptNet ch s pid = lastOf (mid.map fun c => rawNet ch conf pid c.input)
  recorded : (cs.map fun c => netCharge ch pid c.output).sum =
    (mid.map fun c => netRecorded ch conf pid c.pre c.input).sum
  total : (mid.map fun c => netDelta ch conf pid c.pre c.input).sum =
    lastOf (mid.map fun c => rawNet ch conf pid c.input)

section Run

variable {conf : Conf} {cpuFd : List PCFile} {pre mid : List PtopCycle} {s : PtopState} {pid : Pid}

/-- Before the process is first listed. -/
theorem netAccount_before (ch : NetChannel) (h : PtopRun conf cpuFd pre s)
    (hpre : ∀ c ∈ pre, pid ∉ c.input.listing) : NetAccount ch conf pid pre [] s := by
  obtain ⟨hnone, hrows⟩ := run_never_listed h hpre
  constructor
  · rw [keptNet, keptSlot_of_none hnone, ch.total_zero]
    rfl
  · exact sum_map_eq_zero fun c hc => by rw [netCharge, hrows c hc]; rfl
  · rfl

/-- One more cycle. -/
theorem NetAccount.snoc {ch : NetChannel} {cs : List PtopCycle} {c : PtopCycle}
    (h : NetAccount ch conf pid cs mid c.pre)
    (hf : CycleFacts conf c.input c.pre c.post c.output) (hs : StateOk c.pre)
    (hp : pid ∈ c.input.listing) (hread : Readable (c.input.files pid))
    (hnext : lastOf (mid.map fun d => rawNet ch conf pid d.input) ≤ rawNet ch conf pid c.input) :
    NetAccount ch conf pid (cs ++ [c]) (mid ++ [c]) c.post := by
  have hle : keptNet ch c.pre pid ≤ rawNet ch conf pid c.input := h.kept.trans_le hnext
  obtain ⟨hkept, hcharge⟩ := hf.net_account hs hp hread ch hle
  constructor
  · rw [hkept, List.map_append, List.map_singleton, lastOf_snoc]
  · simp only [List.map_append, List.map_singleton, List.sum_append, List.sum_singleton, hcharge,
      h.recorded]
  · have hadd : keptNet ch c.pre pid + netDelta ch conf pid c.pre c.input =
        rawNet ch conf pid c.input := Nat.add_sub_of_le hle
    simp only [List.map_append, List.map_singleton, List.sum_append, List.sum_singleton,
      lastOf_snoc, h.total]
    rw [← h.kept, hadd]

/-- **The account of a run.** The rows record what the cycles do, and what the cycles
add is the last total. -/
theorem netAccount_run (hpre : ∀ c ∈ pre, pid ∉ c.input.listing) (ch : NetChannel) :
    ∀ {s : PtopState}, PtopRun conf cpuFd (pre ++ mid) s →
      (∀ c ∈ mid, pid ∈ c.input.listing ∧ Readable (c.input.files pid)) →
      NetNondecreasing ch conf pid (mid.map Transition.input) →
        NetAccount ch conf pid (pre ++ mid) mid s := by
  induction mid using List.reverseRecOn with
  | nil =>
      intro s h _ _
      rw [List.append_nil] at h ⊢
      exact netAccount_before ch h hpre
  | append_singleton mid c ih =>
      intro s h hthere hmono
      rw [← List.append_assoc] at h ⊢
      obtain ⟨hrun, hstep, rfl⟩ := h.snoc_inv
      rw [List.map_append, List.map_singleton] at hmono
      obtain ⟨hmono, hnext⟩ := eachAfter_snoc.mp hmono
      rw [List.map_map] at hnext
      have haccount := ih hrun (fun d hd => hthere d (List.mem_append_left _ hd)) hmono
      obtain ⟨hp, hread⟩ := hthere c (List.mem_append_right _ (List.mem_singleton_self c))
      have hs := run_stateOk hrun
      exact haccount.snoc (stateOk_step hs hstep).2 hs hp hread hnext

/-- A channel is conserved iff what the cycles record adds up to what they have to. -/
theorem channelConserved_iff_sum (ch : NetChannel) (h : PtopRun conf cpuFd (pre ++ mid) s)
    (hpre : ∀ c ∈ pre, pid ∉ c.input.listing)
    (hthere : ∀ c ∈ mid, pid ∈ c.input.listing ∧ Readable (c.input.files pid))
    (hmono : NetNondecreasing ch conf pid (mid.map Transition.input)) :
    ChannelConserved ch conf pid (pre ++ mid) mid ↔
      (mid.map fun c => netRecorded ch conf pid c.pre c.input).sum =
        (mid.map fun c => (netDelta ch conf pid c.pre c.input : ℚ)).sum := by
  have haccount := netAccount_run hpre ch h hthere hmono
  have hcast : (mid.map fun c => (netDelta ch conf pid c.pre c.input : ℚ)).sum =
      ((mid.map fun c => netDelta ch conf pid c.pre c.input).sum : ℕ) :=
    sum_map_hom (Nat.castAddMonoidHom ℚ) fun _ _ => rfl
  rw [ChannelConserved, haccount.recorded, hcast, haccount.total]

theorem channelRecorded_iff (ch : NetChannel) (c : PtopCycle) :
    ChannelStill ch conf pid c ∧ ChannelHeld ch conf pid c ↔
      netRecorded ch conf pid c.pre c.input = netDelta ch conf pid c.pre c.input := by
  unfold ChannelStill ChannelHeld netRecorded
  by_cases hidle : LooksIdle conf pid c.pre c.input
  · rw [if_pos hidle, @eq_comm ℚ 0, Nat.cast_eq_zero]
    exact ⟨fun h => h.1 hidle, fun h => ⟨fun _ => h, fun hnot => absurd hidle hnot⟩⟩
  · rw [if_neg hidle]
    exact ⟨fun h => h.2 hidle, fun h => ⟨fun hidle' => absurd hidle' hidle, fun _ => h⟩⟩

/-- What is recorded is no more than what is added, if the floats hold it. -/
theorem netRecorded_le (ch : NetChannel) {c : PtopCycle} (h : ChannelHeld ch conf pid c) :
    netRecorded ch conf pid c.pre c.input ≤ netDelta ch conf pid c.pre c.input := by
  unfold netRecorded
  split
  · exact Nat.cast_nonneg _
  · rename_i hidle
    exact (h hidle).le

section Channel

variable (ch : NetChannel)

/-- If the floats hold what the rows record, idle cycles do not make up for each other. -/
theorem channelConserved_iff_still (h : PtopRun conf cpuFd (pre ++ mid) s)
    (hpre : ∀ c ∈ pre, pid ∉ c.input.listing)
    (hthere : ∀ c ∈ mid, pid ∈ c.input.listing ∧ Readable (c.input.files pid))
    (hmono : NetNondecreasing ch conf pid (mid.map Transition.input))
    (hheld : ∀ c ∈ mid, ChannelHeld ch conf pid c) :
    ChannelConserved ch conf pid (pre ++ mid) mid ↔ ∀ c ∈ mid, ChannelStill ch conf pid c := by
  rw [channelConserved_iff_sum ch h hpre hthere hmono]
  constructor
  · intro hsum c hc
    have heq := eq_of_sum_map_eq (fun d hd => netRecorded_le ch (hheld d hd)) hsum c hc
    exact ((channelRecorded_iff ch c).mpr heq).1
  · intro hstill
    exact congrArg List.sum (List.map_congr_left fun c hc =>
      (channelRecorded_iff ch c).mp ⟨hstill c hc, hheld c hc⟩)

/-- Nor does another cycle make up for one that is not recorded. -/
theorem channelConserved_iff_of_one (h : PtopRun conf cpuFd (pre ++ mid) s)
    (hpre : ∀ c ∈ pre, pid ∉ c.input.listing)
    (hthere : ∀ c ∈ mid, pid ∈ c.input.listing ∧ Readable (c.input.files pid))
    (hmono : NetNondecreasing ch conf pid (mid.map Transition.input))
    (hone : mid.countP (fun c => ¬ (ChannelStill ch conf pid c ∧ ChannelHeld ch conf pid c)) ≤ 1) :
    ChannelConserved ch conf pid (pre ++ mid) mid ↔
      ∀ c ∈ mid, ChannelStill ch conf pid c ∧ ChannelHeld ch conf pid c :=
  (channelConserved_iff_sum ch h hpre hthere hmono).trans
    (sum_map_eq_iff_of_countP_le_one (fun c _ => channelRecorded_iff ch c) hone)

end Channel

end Run

/-- No network delta is lost, in either direction. -/
structure NetConserved (conf : Conf) (pid : Pid) (cs mid : List PtopCycle) : Prop where
  sent : ChannelConserved netsnd conf pid cs mid
  received : ChannelConserved netrcv conf pid cs mid

/-- **When no network delta is lost.** If every cycle records what it adds to the totals;
and only then if at most one does not, or if the floats hold what the rows record. -/
theorem net_conserved_iff {conf : Conf} {cpuFd : List PCFile} {pre mid : List PtopCycle}
    {s : PtopState} {pid : Pid} (h : PtopRun conf cpuFd (pre ++ mid) s)
    (hpre : ∀ c ∈ pre, pid ∉ c.input.listing)
    (hthere : ∀ c ∈ mid, pid ∈ c.input.listing ∧ Readable (c.input.files pid))
    (hsnd : NetNondecreasing netsnd conf pid (mid.map Transition.input))
    (hrcv : NetNondecreasing netrcv conf pid (mid.map Transition.input)) :
    ((∀ c ∈ mid, NetRecorded conf pid c) → NetConserved conf pid (pre ++ mid) mid) ∧
    (mid.countP (fun c => ¬ NetRecorded conf pid c) ≤ 1 →
      (NetConserved conf pid (pre ++ mid) mid ↔ ∀ c ∈ mid, NetRecorded conf pid c)) ∧
    ((∀ c ∈ mid, ChannelHeld netsnd conf pid c ∧ ChannelHeld netrcv conf pid c) →
      (NetConserved conf pid (pre ++ mid) mid ↔ ∀ c ∈ mid, NetRecorded conf pid c)) := by
  have hheld : (∀ c ∈ mid, ChannelHeld netsnd conf pid c ∧ ChannelHeld netrcv conf pid c) →
      (NetConserved conf pid (pre ++ mid) mid ↔ ∀ c ∈ mid, NetRecorded conf pid c) := by
    intro hheld
    have hs := channelConserved_iff_still netsnd h hpre hthere hsnd fun c hc => (hheld c hc).1
    have hr := channelConserved_iff_still netrcv h hpre hthere hrcv fun c hc => (hheld c hc).2
    constructor
    · rintro ⟨hsent, hreceived⟩ c hc
      exact ⟨⟨hs.mp hsent c hc, hr.mp hreceived c hc⟩, hheld c hc⟩
    · intro hall
      exact ⟨hs.mpr fun c hc => (hall c hc).still.1, hr.mpr fun c hc => (hall c hc).still.2⟩
  refine ⟨fun hall => (hheld fun c hc => (hall c hc).held).mpr hall, fun hone => ?_, hheld⟩
  -- at most one cycle fails in either direction
  have hs := channelConserved_iff_of_one netsnd h hpre hthere hsnd
    ((countP_not_le (fun _ hc => ⟨hc.still.1, hc.held.1⟩) mid).trans hone)
  have hr := channelConserved_iff_of_one netrcv h hpre hthere hrcv
    ((countP_not_le (fun _ hc => ⟨hc.still.2, hc.held.2⟩) mid).trans hone)
  constructor
  · rintro ⟨hsent, hreceived⟩ c hc
    obtain ⟨hstill, hheld⟩ := hs.mp hsent c hc
    obtain ⟨hstill', hheld'⟩ := hr.mp hreceived c hc
    exact ⟨⟨hstill, hstill'⟩, ⟨hheld, hheld'⟩⟩
  · intro hall
    exact ⟨hs.mpr fun c hc => ⟨(hall c hc).still.1, (hall c hc).held.1⟩,
      hr.mpr fun c hc => ⟨(hall c hc).still.2, (hall c hc).held.2⟩⟩

/-- A process that has used this time, and sent `snd` and received `rcv` packets. -/
def netFiles (utime snd rcv : u64) : ProcFiles :=
  { plainFiles { utime := utime } {} with
    statAgain := some (some { net := { tcpsnd := snd, tcprcv := rcv } }) }

/-- A process that works and sends in every cycle but the last, in which it does neither. -/
def working : List CycleInput :=
  [plainCycle 100 [visitor] fun _ => netFiles 30 10 4,
    plainCycle 200 [visitor] fun _ => netFiles 45 (10 + 2 ^ 26) 4,
    plainCycle 300 [visitor] fun _ => netFiles 45 (10 + 2 ^ 26) 4]

/-- A process that in its second cycle does nothing but send. -/
def sending : List CycleInput :=
  [plainCycle 100 [visitor] fun _ => netFiles 30 10 4,
    plainCycle 200 [visitor] fun _ => netFiles 30 25 4]

theorem working_nondecreasing :
    NetNondecreasing netsnd {} visitor working ∧ NetNondecreasing netrcv {} visitor working := by
  constructor <;> decide

theorem sending_nondecreasing :
    NetNondecreasing netsnd {} visitor sending ∧ NetNondecreasing netrcv {} visitor sending := by
  constructor <;> decide

theorem net_conserved_iff_working :
    (∃ cs s, PtopRun {} [] cs s ∧ cs.map Transition.input = working ∧
      NetConserved {} visitor cs cs) ∧
    ∃ cs s, PtopRun {} [] cs s ∧ cs.map Transition.input = sending ∧
      ¬ NetConserved {} visitor cs cs := by
  have hnil : ∀ c ∈ ([] : List PtopCycle), visitor ∉ c.input.listing := by simp
  constructor
  · obtain ⟨cs, s, hrun, hinput, hthere, hrecorded⟩ := exists_run_of_trace (mainLoop {})
      (systemInit []) working
      (fun cs => (∀ c ∈ cs, visitor ∈ c.input.listing ∧ Readable (c.input.files visitor)) ∧
        ∀ c ∈ cs, NetRecorded {} visitor c) (by decide +kernel)
    exact ⟨cs, s, hrun, hinput, (net_conserved_iff (List.nil_append cs ▸ hrun) hnil hthere
      (hinput ▸ working_nondecreasing.1) (hinput ▸ working_nondecreasing.2)).1 hrecorded⟩
  · obtain ⟨cs, s, hrun, hinput, hthere, hone, hlost⟩ := exists_run_of_trace (mainLoop {})
      (systemInit []) sending
      (fun cs => (∀ c ∈ cs, visitor ∈ c.input.listing ∧ Readable (c.input.files visitor)) ∧
        cs.countP (fun c => ¬ NetRecorded {} visitor c) ≤ 1 ∧
        ¬ ∀ c ∈ cs, NetRecorded {} visitor c) (by decide +kernel)
    refine ⟨cs, s, hrun, hinput, fun hconserved => hlost ?_⟩
    exact ((net_conserved_iff (List.nil_append cs ▸ hrun) hnil hthere
      (hinput ▸ sending_nondecreasing.1) (hinput ▸ sending_nondecreasing.2)).2.1 hone).mp hconserved

/-- The packets sent in the second cycle are in no row. -/
theorem sent_packets_lost :
    ∃ cs s, PtopRun {} [] cs s ∧ cs.map Transition.input = sending ∧
      (∀ c ∈ cs, visitor ∈ c.input.listing ∧ Readable (c.input.files visitor)) ∧
      NetNondecreasing netsnd {} visitor (cs.map Transition.input) ∧
      NetNondecreasing netrcv {} visitor (cs.map Transition.input) ∧
      ¬ NetConserved {} visitor cs cs := by
  obtain ⟨cs, s, hrun, hinput, hthere, hlost⟩ := exists_run_of_trace (mainLoop {}) (systemInit [])
    sending
    (fun cs => (∀ c ∈ cs, visitor ∈ c.input.listing ∧ Readable (c.input.files visitor)) ∧
      (cs.map fun c => netCharge netsnd visitor c.output).sum ≠
        lastOf (cs.map fun c => rawNet netsnd {} visitor c.input)) (by decide +kernel)
  exact ⟨cs, s, hrun, hinput, hthere, hinput ▸ sending_nondecreasing.1,
    hinput ▸ sending_nondecreasing.2, fun hconserved => hlost hconserved.sent⟩

end PTop
