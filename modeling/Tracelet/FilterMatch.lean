import Tracelet.Kernel

namespace Tracelet
open KernelMap

namespace Filter

/-- `apply_map`: the same fields in C's layout, with `comm` as signed bytes. -/
def applyMap (map : ArrayMap Bpf.FilterConfig 1) (config : FilterConfig) :
    ArrayMap Bpf.FilterConfig 1 :=
  ArrayMap.update map 0
    { eventMask := config.eventMask
      pidCount := config.pidCount
      pids := config.pids
      ppid := config.ppid
      ppidEnabled := config.ppidEnabled
      commEnabled := config.commEnabled
      comm := config.comm.map UInt8.toInt8 }

def configure (m : Bpf.Maps) (config : FilterConfig) : Bpf.Maps :=
  { m with filterMap := applyMap m.filterMap config }

/-- The options in their own words: each one that is given must match. -/
structure Asked (args : FilterArgs) (task : Bpf.Task) : Prop where
  pid : ∀ pids, args.pid = some pids → task.tgid ∈ pids
  ppid : ∀ ppid, args.ppid = some ppid → task.parentTgid = ppid
  comm : ∀ comm, args.comm = some comm → task.comm.name = RustText.asBytes comm

end Filter

namespace Bpf

theorem Task.tgid_eq (t : Task) : (t.pidTgid >>> 32).toUInt32 = t.tgid := by
  apply UInt32.toNat_inj.mp
  have h1 := t.tgid.toNat_lt
  have h2 := t.tid.toNat_lt
  have hor : (t.tgid.toNat <<< 32 ||| t.tid.toNat) >>> 32 = t.tgid.toNat := by
    rw [Nat.shiftRight_or_distrib, Nat.shiftLeft_shiftRight, Nat.shiftRight_eq_div_pow,
      Nat.div_eq_of_lt h2, Nat.or_zero]
  have hlt : t.tgid.toNat <<< 32 < 2 ^ 64 := by
    rw [Nat.shiftLeft_eq]
    omega
  have hid : t.pidTgid.toNat = t.tgid.toNat <<< 32 ||| t.tid.toNat := by
    rw [pidTgid, UInt64.toNat_or, UInt64.toNat_shiftLeft, UInt32.toNat_toUInt64,
      UInt32.toNat_toUInt64]
    exact congrArg (· ||| t.tid.toNat) (Nat.mod_eq_of_lt hlt)
  rw [UInt64.toNat_toUInt32, UInt64.toNat_shiftRight, hid]
  exact (congrArg (· % 2 ^ 32) hor).trans (Nat.mod_eq_of_lt h1)

theorem pidLoop_eq_true_iff (pid count : UInt32) (i : ℕ) (ps : List UInt32) :
    pidLoop pid count i ps = true ↔ pid ∈ ps.take (count.toNat - i) := by
  induction ps generalizing i with
  | nil => simp [pidLoop]
  | cons p ps ih =>
    rw [pidLoop]
    by_cases hc : count.toNat ≤ i
    · simp [hc]
    · obtain ⟨k, hk⟩ : ∃ k, count.toNat - i = k + 1 := ⟨count.toNat - i - 1, by omega⟩
      have hk' : count.toNat - (i + 1) = k := by omega
      -- one more pid is in reach, and the rest of the loop sees the others
      rw [if_neg hc, hk, List.take_succ_cons, List.mem_cons]
      by_cases hp : p = pid
      · simp [hp]
      · simp [hp, ih, hk', Ne.symm hp]

theorem commLoop_eq_true_iff (cs fs : List Int8) (h : cs.length = fs.length) :
    commLoop cs fs = true ↔ cs = fs := by
  induction cs generalizing fs with
  | nil => cases fs with
    | nil => simp [commLoop]
    | cons f fs => simp at h
  | cons c cs ih => cases fs with
    | nil => simp at h
    | cons f fs =>
      rw [commLoop]
      by_cases hc : c = f
      · simp [hc, ih fs (by simpa using h)]
      · simp [hc]

theorem Comm.toList_padded (c : Comm) :
    c.padded.toList = c.name ++ 0 :: List.replicate (15 - c.name.length) 0 := by
  have h := c.length_le
  have hr : List.replicate (16 - c.name.length) (0 : UInt8) =
      0 :: List.replicate (15 - c.name.length) 0 := by
    rw [← List.replicate_succ]
    congr 1
    omega
  simp [padded, hr]

theorem Comm.cutNul_padded (c : Comm) : cutNul c.padded.toList = c.name := by
  rw [c.toList_padded, cutNul_append_nul c.noNul]

/-- `allowed` on a stored filter, one clause for each of its three tests. -/
theorem allowed_eq_true_iff {m : Maps} {f : FilterConfig} (hf : getFilter m = some f)
    (hcount : f.pidCount.toNat ≤ maxPids) (task : Task) :
    allowed m task = true ↔
      (0 < f.pidCount.toNat → task.tgid ∈ f.pids.toList.take f.pidCount.toNat) ∧
      (f.ppidEnabled ≠ 0 → task.parentTgid = f.ppid) ∧
      (f.commEnabled ≠ 0 → task.comm.padded.toList.map UInt8.toInt8 = f.comm.toList) := by
  have hmax : ¬ f.pidCount > UInt32.ofNat maxPids := by
    simp only [gt_iff_lt, UInt32.lt_iff_toNat_lt, not_lt]
    exact hcount
  have hpos : f.pidCount > 0 ↔ 0 < f.pidCount.toNat := by
    rw [gt_iff_lt, UInt32.lt_iff_toNat_lt]
    rfl
  have hlen : (task.comm.padded.toList.map UInt8.toInt8).length = f.comm.toList.length := by simp
  simp only [allowed, hf, if_neg hmax, Task.tgid_eq, pidLoop_eq_true_iff,
    commLoop_eq_true_iff _ _ hlen, Nat.sub_zero, hpos]
  -- the three `return 0` of the program, each of which negates one conjunct
  split_ifs with h1 h2 h3
  · simp only [false_iff]
    exact fun h => h1.2 (h.1 h1.1)
  · simp only [false_iff]
    exact fun h => h2.2 (h.2.1 h2.1)
  · simp only [false_iff]
    exact fun h => h3.2 (h.2.2 h3.1)
  · simp only [true_iff]
    exact ⟨fun h => not_not.mp fun hn => h1 ⟨h, hn⟩, fun h => not_not.mp fun hn => h2 ⟨h, hn⟩,
      fun h => not_not.mp fun hn => h3 ⟨h, hn⟩⟩

theorem allowed_fresh (task : Task) : allowed Maps.fresh task = true := by
  have hf : getFilter Maps.fresh = some _ := ArrayMap.lookup_replicate _ (by decide)
  rw [allowed_eq_true_iff hf (by decide)]
  exact ⟨fun h => absurd h (by decide), fun h => absurd rfl h, fun h => absurd rfl h⟩

theorem rejected_unchanged {m : Maps} {task : Task} (h : allowed m task = false)
    (now : UInt64) :
    (∀ ctx reserved, traceExec m task now ctx reserved = m) ∧
      (∀ fname reserved, submitOpen m task now fname reserved = m) ∧
      (∀ ctx reserved, traceTcp m task now ctx reserved = m) := by
  refine ⟨fun _ _ => ?_, fun _ _ => ?_, fun _ _ => ?_⟩
  · simp [traceExec, h]
  · simp [submitOpen, h]
  · simp [traceTcp, h]

end Bpf

namespace Filter
open Bpf (Task Maps allowed)

theorem commBytes_eq_ok_iff (comm : String) (out : Vector UInt8 16) :
    commBytes comm = .ok out ↔
      (1 ≤ (RustText.asBytes comm).length ∧ (RustText.asBytes comm).length ≤ 15) ∧
        out = Vector.ofFn fun i : Fin 16 => (RustText.asBytes comm).getD i 0 := by
  have hmax : commMaxLen = 15 := rfl
  simp only [commBytes, List.isEmpty_iff_length_eq_zero]
  by_cases h1 : (RustText.asBytes comm).length = 0
  · rw [if_pos h1]
    exact iff_of_false (by simp) fun h => by omega
  by_cases h2 : (RustText.asBytes comm).length > commMaxLen
  · rw [if_neg h1, if_pos h2]
    exact iff_of_false (by simp) fun h => by omega
  · rw [if_neg h1, if_neg h2, Except.ok.injEq]
    exact ⟨fun h => ⟨by omega, h.symm⟩, fun h => h.2.symm⟩

theorem padded_eq_ofFn_iff (c : Bpf.Comm) {bytes : List UInt8} (hlen : bytes.length ≤ 15)
    (h0 : 0 ∉ bytes) :
    c.padded.toList.map UInt8.toInt8 =
        ((Vector.ofFn fun i : Fin 16 => bytes.getD i 0).map UInt8.toInt8).toList ↔
      c.name = bytes := by
  -- the BPF side compares signed chars
  have hinj : Function.Injective UInt8.toInt8 := fun a b h => by
    simpa using congrArg Int8.toUInt8 h
  have hbytes : (Vector.ofFn fun i : Fin 16 => bytes.getD i 0).toList =
      (⟨bytes, hlen, h0⟩ : Bpf.Comm).padded.toList := by
    apply List.ext_getElem
    · simp
    intro i hi _
    simp only [Vector.length_toList] at hi
    simp only [Bpf.Comm.padded, Vector.getElem_toList, Vector.getElem_ofFn,
      List.getD_eq_getElem?_getD]
    by_cases hb : i < bytes.length
    · simp [hb, List.getElem_append_left]
    · simp [hb, List.getElem_append_right (Nat.le_of_not_lt hb)]
  rw [Vector.toList_map, List.map_inj_right fun a b h => hinj h, hbytes]
  constructor
  · intro h
    have hc := congrArg cutNul h
    rwa [Bpf.Comm.cutNul_padded, Bpf.Comm.cutNul_padded] at hc
  · rintro rfl
    rfl

/-- The arguments `config` accepts. -/
structure Valid (args : FilterArgs) : Prop where
  pid : ∀ pids, args.pid = some pids → pids.length ≤ maxPids
  comm : ∀ comm, args.comm = some comm →
    1 ≤ (RustText.asBytes comm).length ∧ (RustText.asBytes comm).length ≤ 15

def encoded (args : FilterArgs) (mask : UInt32) : FilterConfig where
  eventMask := mask
  pidCount := args.pid.elim 0 fun pids => UInt32.ofNat pids.length
  pids := args.pid.elim (Vector.replicate maxPids 0) listPids
  ppid := args.ppid.getD 0
  ppidEnabled := args.ppid.elim 0 fun _ => 1
  commEnabled := args.comm.elim 0 fun _ => 1
  comm := args.comm.elim (Vector.replicate 16 0) fun comm =>
    Vector.ofFn fun i => (RustText.asBytes comm).getD i 0

theorem withComm_eq_ok_iff (args : FilterArgs) (cfg out : FilterConfig) :
    withComm args cfg = .ok out ↔
      (∀ comm, args.comm = some comm →
        1 ≤ (RustText.asBytes comm).length ∧ (RustText.asBytes comm).length ≤ 15) ∧
      out = { cfg with
        commEnabled := args.comm.elim cfg.commEnabled fun _ => 1
        comm := args.comm.elim cfg.comm fun comm =>
          Vector.ofFn fun i => (RustText.asBytes comm).getD i 0 } := by
  cases hc : args.comm with
  | none => simpa [withComm, hc] using eq_comm
  | some comm =>
    cases hb : commBytes comm with
    | error e =>
      have hn :=
        (commBytes_eq_ok_iff comm (Vector.ofFn fun i => (RustText.asBytes comm).getD i 0)).not.mp
        (by rw [hb]; simp)
      simp only [and_true] at hn
      simp [withComm, hc, hb, Bind.bind, Except.bind]
      omega
    | ok v =>
      obtain ⟨hlen, rfl⟩ := (commBytes_eq_ok_iff comm v).mp hb
      simp [withComm, hc, hb, Bind.bind, Except.bind, Pure.pure, Except.pure, hlen, eq_comm]

theorem config_eq_ok_iff (args : FilterArgs) (mask : UInt32) (cfg : FilterConfig) :
    config args mask = .ok cfg ↔ Valid args ∧ cfg = encoded args mask := by
  have hvalid : Valid args ↔ (∀ pids, args.pid = some pids → pids.length ≤ maxPids) ∧
      ∀ comm, args.comm = some comm →
        1 ≤ (RustText.asBytes comm).length ∧ (RustText.asBytes comm).length ≤ 15 :=
    ⟨fun h => ⟨h.pid, h.comm⟩, fun h => ⟨h.1, h.2⟩⟩
  rw [hvalid]
  cases hp : args.pid with
  | none =>
    have hw : withPids args { eventMask := mask } = .ok { eventMask := mask } := by
      simp [withPids, hp]
    simp only [config, hw, Bind.bind, Except.bind, withComm_eq_ok_iff]
    cases hpp : args.ppid <;> simp [withPpid, encoded, hp, hpp]
  | some pids =>
    by_cases hlen : pids.length > maxPids
    · simp [config, withPids, hp, hlen, Bind.bind, Except.bind]
    · have hw : withPids args { eventMask := mask } =
          .ok { eventMask := mask, pidCount := .ofNat pids.length, pids := listPids pids } := by
        simp [withPids, hp, hlen]
      simp only [config, hw, Bind.bind, Except.bind, withComm_eq_ok_iff]
      cases hpp : args.ppid <;> simp [withPpid, encoded, hp, hpp, Nat.le_of_not_lt hlen]

theorem take_listPids {pids : List UInt32} (h : pids.length ≤ maxPids) :
    (listPids pids).toList.take pids.length = pids := by
  apply List.ext_getElem
  · simp [h]
  intro i _ hi
  simp [listPids, hi]

theorem pidCount_encoded {args : FilterArgs} (hvalid : Valid args) (mask : UInt32) :
    (encoded args mask).pidCount.toNat = (args.pid.getD []).length ∧
      (args.pid.getD []).length ≤ maxPids := by
  cases hp : args.pid with
  | none => simp [encoded, hp]
  | some pids =>
    have hlen := hvalid.pid pids hp
    refine ⟨?_, hlen⟩
    simp only [encoded, hp, Option.elim_some, Option.getD_some, UInt32.toNat_ofNat']
    exact Nat.mod_eq_of_lt (hlen.trans_lt (by decide))

theorem pids_encoded_iff {args : FilterArgs} (hvalid : Valid args) (hpid : args.pid ≠ some [])
    (mask : UInt32) (tgid : UInt32) :
    (0 < (encoded args mask).pidCount.toNat →
      tgid ∈ (encoded args mask).pids.toList.take (encoded args mask).pidCount.toNat) ↔
      ∀ pids, args.pid = some pids → tgid ∈ pids := by
  rw [(pidCount_encoded hvalid mask).1]
  cases hp : args.pid with
  | none => simp
  | some pids =>
    have hne : 0 < pids.length := List.length_pos_of_ne_nil fun he => hpid (he ▸ hp)
    simp [encoded, hp, hne, take_listPids (hvalid.pid pids hp)]

theorem ppid_encoded_iff (args : FilterArgs) (mask : UInt32) (ppid : UInt32) :
    ((encoded args mask).ppidEnabled ≠ 0 → ppid = (encoded args mask).ppid) ↔
      ∀ wanted, args.ppid = some wanted → ppid = wanted := by
  cases hp : args.ppid <;> simp [encoded, hp]

theorem comm_encoded_iff {args : FilterArgs} (hvalid : Valid args)
    (hcomm : ∀ comm, args.comm = some comm → 0 ∉ RustText.asBytes comm) (mask : UInt32)
    (comm : Bpf.Comm) :
    ((encoded args mask).commEnabled ≠ 0 → comm.padded.toList.map UInt8.toInt8 =
      ((encoded args mask).comm.map UInt8.toInt8).toList) ↔
      ∀ wanted, args.comm = some wanted → comm.name = RustText.asBytes wanted := by
  cases hc : args.comm with
  | none => simp [encoded, hc]
  | some wanted =>
    have hone : ¬ (1 : UInt32) = 0 := by decide
    simp only [encoded, hc, Option.elim_some, ne_eq, hone, not_false_eq_true, true_imp_iff,
      Option.some.injEq, forall_eq']
    exact padded_eq_ofFn_iff comm (hvalid.comm wanted hc).2 (hcomm wanted hc)

/-- The map entry holds the encoded options, whatever it held before. -/
theorem allowed_configure_iff {args : FilterArgs} {mask : UInt32} {cfg : FilterConfig}
    (hpid : args.pid ≠ some []) (hcomm : ∀ comm, args.comm = some comm → 0 ∉ RustText.asBytes comm)
    (h : config args mask = .ok cfg) (m : Maps) (task : Task) :
    allowed (configure m cfg) task = true ↔ Asked args task := by
  obtain ⟨hvalid, rfl⟩ := (config_eq_ok_iff args mask cfg).mp h
  have hstored : Bpf.getFilter (configure m (encoded args mask)) = some
      { eventMask := mask
        pidCount := (encoded args mask).pidCount
        pids := (encoded args mask).pids
        ppid := (encoded args mask).ppid
        ppidEnabled := (encoded args mask).ppidEnabled
        commEnabled := (encoded args mask).commEnabled
        comm := (encoded args mask).comm.map UInt8.toInt8 } :=
    ArrayMap.lookup_update_self m.filterMap (by decide) _
  obtain ⟨hlen, hle⟩ := pidCount_encoded hvalid mask
  rw [Bpf.allowed_eq_true_iff hstored (hlen ▸ hle), pids_encoded_iff hvalid hpid,
    ppid_encoded_iff, comm_encoded_iff hvalid hcomm]
  exact ⟨fun h => ⟨h.1, h.2.1, h.2.2⟩, fun h => ⟨h.pid, h.ppid, h.comm⟩⟩

/-- The kernel filter decides exactly what the command line asked for. -/
theorem filter_decides_as_asked (args : FilterArgs) (mask : UInt32) (hpid : args.pid ≠ some [])
    (hcomm : ∀ comm, args.comm = some comm → 0 ∉ RustText.asBytes comm) :
    ((∃ cfg, config args mask = .ok cfg) ↔ Valid args) ∧
    (∀ cfg, config args mask = .ok cfg → ∀ (m : Maps) (task : Task),
      (allowed (configure m cfg) task = true ↔ Asked args task)) ∧
    ∀ (m : Maps) (task : Task) (now : UInt64), allowed m task = false →
      (∀ ctx reserved, Bpf.traceExec m task now ctx reserved = m) ∧
      (∀ fname reserved, Bpf.submitOpen m task now fname reserved = m) ∧
      (∀ ctx reserved, Bpf.traceTcp m task now ctx reserved = m) := by
  refine ⟨?_, fun cfg h m task => allowed_configure_iff hpid hcomm h m task,
    fun m task now h => Bpf.rejected_unchanged h now⟩
  constructor
  · rintro ⟨cfg, h⟩
    exact ((config_eq_ok_iff args mask cfg).mp h).1
  · intro h
    exact ⟨_, (config_eq_ok_iff args mask _).mpr ⟨h, rfl⟩⟩

theorem filter_decides_as_asked_sh :
    Valid ⟨some [7, 0], none, some "sh"⟩ ∧
    ∀ cfg, config ⟨some [7, 0], none, some "sh"⟩ 7 = .ok cfg → ∀ (m : Maps) (task : Task),
      (allowed (configure m cfg) task = true ↔ Asked ⟨some [7, 0], none, some "sh"⟩ task) := by
  have h := filter_decides_as_asked ⟨some [7, 0], none, some "sh"⟩ 7 (by decide) fun comm h => by
    obtain rfl := Option.some.inj h
    decide
  exact ⟨h.1.mp ⟨_, rfl⟩, h.2.1⟩

end Filter

end Tracelet
