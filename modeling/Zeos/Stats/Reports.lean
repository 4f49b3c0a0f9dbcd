import Zeos.Library.Transfers
import Zeos.Sems.Owners
import Zeos.Space.UserMemory

/-!
# What `sys_get_stats` reports

The search goes over the whole table, so it may find a PCB that a failed fork
left with the PID of a process; and it writes the caller's `remaining_ticks`
into the PCB that it finds.
-/

namespace Zeos

theorem wordBytes_inj {first second : UInt32} (same : wordBytes first = wordBytes second) :
    first = second := by
  have value : ∀ word : UInt32, word.toNat = word.toUInt8.toNat +
      256 * (word >>> 8).toUInt8.toNat + 65536 * (word >>> 16).toUInt8.toNat +
        16777216 * (word >>> 24).toUInt8.toNat := by
    intro word
    have bound := word.toNat_lt
    simp only [UInt32.toNat_toUInt8, UInt32.toNat_shiftRight, UInt32.toNat_ofNat,
      Nat.shiftRight_eq_div_pow, Nat.reduceMod, Nat.reducePow]
    omega
  simp only [wordBytes, List.cons.injEq, and_true] at same
  obtain ⟨b₀, b₁, b₂, b₃⟩ := same
  apply UInt32.toNat_inj.mp
  rw [value first, value second, b₀, b₁, b₂, b₃]

theorem Stats.bytes_inj {first second : Stats} (same : first.bytes = second.bytes) :
    first = second := by
  unfold Stats.bytes at same
  obtain ⟨same, remaining⟩ := List.append_inj' same rfl
  obtain ⟨same, trans⟩ := List.append_inj' same rfl
  obtain ⟨same, elapsed⟩ := List.append_inj' same rfl
  obtain ⟨same, ready⟩ := List.append_inj' same rfl
  obtain ⟨same, blocked⟩ := List.append_inj' same rfl
  obtain ⟨user, system⟩ := List.append_inj' same rfl
  cases first
  cases second
  simp only [Stats.mk.injEq]
  exact ⟨wordBytes_inj user, wordBytes_inj system, wordBytes_inj blocked,
    wordBytes_inj ready, wordBytes_inj elapsed, wordBytes_inj trans, wordBytes_inj remaining⟩

namespace Memory

variable {mm : Memory} {dir : DirId} {dest : UInt32} {values others : List UInt8}

theorem copyToUser_translate (dir d : DirId) (values : List UInt8) (dest : UInt32)
    (mm : Memory) (page : Nat) :
    (copyToUser dir values dest mm).translate d page = mm.translate d page := by
  obtain ⟨ram, fault, same⟩ := copyToUser_cases dir values dest mm
  rw [same]
  rfl

theorem storeByte_loadByte (value : UInt8)
    (mapped : (mm.translate dir (dest.toNat / pageSize)).isSome) :
    (mm.storeByte dir dest value).loadByte dir dest = some value := by
  obtain ⟨frame, found⟩ := Option.isSome_iff_exists.mp mapped
  rw [loadByte, storeByte_translate, storeByte, found, Option.map_some]
  simp only [Function.update_self]

/-- The bytes that were copied are there, if they fit in a page. -/
theorem copyToUser_there (dir : DirId) : ∀ (values : List UInt8) (dest : UInt32)
    (mm : Memory), values.length ≤ pageSize →
    (∀ k < values.length,
      (mm.translate dir ((dest + UInt32.ofNat k).toNat / pageSize)).isSome) →
    ∀ k value, values[k]? = some value →
      (copyToUser dir values dest mm).loadByte dir (dest + UInt32.ofNat k) = some value
  | [], _, _, _, _, k, value, found => by
      rw [List.getElem?_nil] at found
      nomatch found
  | first :: values, dest, mm, few, mapped, k, value, found => by
      rw [List.length_cons] at few mapped
      have start := mapped 0 (Nat.succ_pos _)
      rw [Library.add_ofNat_zero] at start
      cases k with
      | zero =>
          have stored := storeByte_loadByte first start
          rw [List.getElem?_cons_zero, Option.some_inj] at found
          rw [Library.add_ofNat_zero, ← found, ← stored, copyToUser]
          unfold loadByte
          rw [copyToUser_translate]
          cases place : (mm.storeByte dir dest first).translate dir
              (dest.toNat / pageSize) with
          | none => rfl
          | some frame =>
              rw [Option.map_some, Option.map_some]
              congr 1
              by_contra changed
              obtain ⟨address, member, -, offset⟩ := copyToUser_ram _ _ _ _ _ _ changed
              obtain ⟨i, inRange, rfl⟩ := List.mem_map.mp member
              have inside := List.mem_range.mp inRange
              dsimp only at inside offset
              rw [UInt32.toNat_add, UInt32.toNat_add, UInt32.toNat_ofNat'] at offset
              simp only [pageSize, UInt32.toNat_one] at offset few
              omega
      | succ k =>
          rw [List.getElem?_cons_succ] at found
          rw [copyToUser, ← Library.add_succ_ofNat]
          apply copyToUser_there dir values (dest + 1) _ (by omega) ?_ k value found
          intro i inside
          rw [storeByte_translate, Library.add_succ_ofNat]
          exact mapped (i + 1) (by omega)

theorem copyToUser_inj (few : values.length ≤ pageSize) (same : others.length = values.length)
    (mapped : ∀ k < values.length,
      (mm.translate dir ((dest + UInt32.ofNat k).toNat / pageSize)).isSome)
    (copied : copyToUser dir values dest mm = copyToUser dir others dest mm) :
    values = others := by
  apply List.ext_getElem?
  intro k
  by_cases inside : k < values.length
  · have insideToo : k < others.length := by omega
    have here : values[k]? = some (values.get ⟨k, inside⟩) := List.getElem?_eq_getElem inside
    have otherwise : others[k]? = some (others.get ⟨k, insideToo⟩) :=
      List.getElem?_eq_getElem insideToo
    have there := copyToUser_there dir values dest mm few mapped k _ here
    have thereToo := copyToUser_there dir others dest mm (same ▸ few) (same ▸ mapped) k _
      otherwise
    rw [copied, thereToo] at there
    rw [here, otherwise]
    exact there.symm
  · rw [List.getElem?_eq_none (by omega), List.getElem?_eq_none (by omega)]

end Memory

namespace Kernel

variable {s c : Kernel} {image : BootImage} {pid : Int32} {st : UInt32} {issued : Nat}
  {first t : TaskId}

/-- A pointer that a `struct stats` can be stored at. -/
structure ValidStats (s : Kernel) (st : UInt32) : Prop where
  notNull : st ≠ 0
  allowed : accessOk .verifyWrite st 28 = true
  mapped : ∀ k < 28, (s.mm.translate s.cr3 ((st + UInt32.ofNat k).toNat / pageSize)).isSome

/-- No field of a PCB differs, nor what its kernel stack holds. -/
structure SamePcbs (s s' : Kernel) : Prop where
  task : s'.task = s.task
  stats : s'.stats = s.stats
  links : s'.links = s.links
  context : s'.context = s.context
  eax : s'.eax = s.eax

/-- `sys_get_stats` reports the live process with the PID and changes no PCB. -/
structure StatsRight (c : Kernel) (pid : Int32) (st : UInt32) : Prop where
  unique : ∀ t u, c.live t = true → c.live u = true → (c.task t).pid = pid.toInt →
    (c.task u).pid = pid.toInt → t = u
  reported : ∀ t, c.live t = true → (c.task t).pid = pid.toInt →
    c.sysGetStats pid st = (0, c.copyToUser (c.stats t).bytes st)
  missing : (∀ t, c.live t = true → (c.task t).pid ≠ pid.toInt) →
    c.sysGetStats pid st = (-esrch, c)
  unchanged : SamePcbs c (c.sysGetStats pid st).2

/-- The first PCB of the table that has the PID. -/
def FirstWith (c : Kernel) (pid : Int) (t : TaskId) : Prop :=
  (c.task t).pid = pid ∧ ∀ u < t, (c.task u).pid ≠ pid

/-- The caller asks for itself, or for a PID that no PCB has, or for a live process
whose statistics the first PCB with its PID has, with the caller's
`remaining_ticks`. -/
def Reported (c : Kernel) (pid : Int) : Prop :=
  pid = c.currentTask.pid ∨ (∀ t, (c.task t).pid ≠ pid) ∨
    ∃ t first, c.live t = true ∧ (c.task t).pid = pid ∧ c.FirstWith pid first ∧
      c.stats first = c.stats t ∧
      (c.stats first).remainingTicks = (c.stats c.current).remainingTicks

theorem find_eq_first {pid : Int} :
    (List.finRange nrTasks).find? (fun i => (c.task i).pid = pid) = some first ↔
      c.FirstWith pid first := by
  have search : (List.finRange 10).find? (fun i => (c.task i).pid = pid) = some first ↔
      (c.task first).pid = pid ∧ ∀ u < first, (c.task u).pid ≠ pid := by
    rw [← List.ofFn_id, List.find?_ofFn_eq_some]
    simp only [decide_eq_true_eq, id_eq, exists_eq_left, ne_eq]
  exact search

theorem exists_first {pid : Int} (named : (c.task t).pid = pid) :
    ∃ first, c.FirstWith pid first := by
  cases found : (List.finRange nrTasks).find? fun i => (c.task i).pid = pid with
  | some first => exact ⟨first, find_eq_first.mp found⟩
  | none =>
      have absent := List.find?_eq_none.mp found t (List.mem_finRange t)
      exact absurd named (by simpa using absent)

/-! ## The four ways through `sys_get_stats` -/

theorem sysGetStats_own (args : ValidStats c st) (nonneg : 0 ≤ pid.toInt)
    (own : pid.toInt = c.currentTask.pid) :
    c.sysGetStats pid st = (0, c.copyToUser (c.stats c.current).bytes st) := by
  unfold sysGetStats
  rw [if_neg (by omega), if_neg args.notNull, if_neg (not_not.mpr args.allowed), if_pos own]

theorem sysGetStats_first (args : ValidStats c st) (nonneg : 0 ≤ pid.toInt)
    (other : pid.toInt ≠ c.currentTask.pid) (isFirst : c.FirstWith pid.toInt first) :
    c.sysGetStats pid st = (0,
      (c.modStats first fun found =>
        { found with remainingTicks := (c.stats c.current).remainingTicks }).copyToUser
        ({ c.stats first with
          remainingTicks := (c.stats c.current).remainingTicks } : Stats).bytes st) := by
  unfold sysGetStats
  rw [if_neg (by omega), if_neg args.notNull, if_neg (not_not.mpr args.allowed), if_neg other,
    find_eq_first.mpr isFirst]
  dsimp only
  unfold modStats
  dsimp only
  rw [Function.update_self]

theorem sysGetStats_none (args : ValidStats c st) (nonneg : 0 ≤ pid.toInt)
    (other : pid.toInt ≠ c.currentTask.pid) (absent : ∀ t, (c.task t).pid ≠ pid.toInt) :
    c.sysGetStats pid st = (-esrch, c) := by
  have none : (List.finRange nrTasks).find? (fun i => (c.task i).pid = pid.toInt) = none :=
    List.find?_eq_none.mpr fun t _ => by simpa using absent t
  unfold sysGetStats
  rw [if_neg (by omega), if_neg args.notNull, if_neg (not_not.mpr args.allowed), if_neg other,
    none]

/-- Writing the same `remaining_ticks` changes nothing. -/
theorem modStats_remaining
    (same : (c.stats first).remainingTicks = (c.stats c.current).remainingTicks) :
    (c.modStats first fun found =>
      { found with remainingTicks := (c.stats c.current).remainingTicks }) = c := by
  unfold modStats
  dsimp only
  rw [← same]
  have kept : Function.update c.stats first { c.stats first with
      remainingTicks := (c.stats first).remainingTicks } = c.stats :=
    Function.update_eq_self first c.stats
  rw [kept]

theorem copyToUser_samePcbs (c : Kernel) (values : List UInt8) (dest : UInt32) :
    SamePcbs c (c.copyToUser values dest) := ⟨rfl, rfl, rfl, rfl, rfl⟩

/-- The copies of two statistics differ. -/
theorem copyToUser_stats_inj (args : ValidStats c st) {one other : Stats}
    (same : c.copyToUser one.bytes st = c.copyToUser other.bytes st) : one = other := by
  apply Stats.bytes_inj
  refine Memory.copyToUser_inj ?_ ?_ ?_ (congrArg Kernel.mm same)
  · exact (by decide : 28 ≤ 4096)
  · rfl
  · exact args.mapped

theorem statsRight_iff (args : ValidStats c st) (nonneg : 0 ≤ pid.toInt)
    (currentLive : c.live c.current = true)
    (distinct : ∀ t u, c.live t = true → c.live u = true →
      (c.task t).pid = (c.task u).pid → t = u) :
    StatsRight c pid st ↔ Reported c pid.toInt := by
  have unique : ∀ t u, c.live t = true → c.live u = true → (c.task t).pid = pid.toInt →
      (c.task u).pid = pid.toInt → t = u := by
    intro t u alive aliveToo named namedToo
    exact distinct t u alive aliveToo (named.trans namedToo.symm)
  by_cases own : pid.toInt = c.currentTask.pid
  · refine iff_of_true ?_ (Or.inl own)
    have served := sysGetStats_own args nonneg own
    exact {
      unique := unique
      reported := fun t alive named => by
        rw [served, unique t c.current alive currentLive named own.symm]
      missing := fun absent => absurd own.symm (absent c.current currentLive)
      unchanged := by
        rw [served]
        exact copyToUser_samePcbs c _ st }
  by_cases absent : ∀ t, (c.task t).pid ≠ pid.toInt
  · refine iff_of_true ?_ (Or.inr (Or.inl absent))
    have served := sysGetStats_none args nonneg own absent
    exact {
      unique := unique
      reported := fun t _ named => absurd named (absent t)
      missing := fun _ => served
      unchanged := by
        rw [served]
        exact ⟨rfl, rfl, rfl, rfl, rfl⟩ }
  obtain ⟨someone, named⟩ := not_forall_not.mp absent
  obtain ⟨first, isFirst⟩ := exists_first named
  have served := sysGetStats_first args nonneg own isFirst
  constructor
  · intro right
    have stats := right.unchanged.stats
    rw [served] at stats
    have remaining : (c.stats first).remainingTicks =
        (c.stats c.current).remainingTicks := by
      have written := congrArg Stats.remainingTicks (congrFun stats first)
      change (Function.update c.stats first _ first).remainingTicks = _ at written
      rw [Function.update_self] at written
      exact written.symm
    have found : ∃ t, c.live t = true ∧ (c.task t).pid = pid.toInt := by
      by_contra nobody
      have missing := right.missing fun t alive named => nobody ⟨t, alive, named⟩
      rw [served] at missing
      exact absurd (congrArg Prod.fst missing) (by decide : (0 : Int) ≠ -esrch)
    obtain ⟨t, alive, hasPid⟩ := found
    have reported := right.reported t alive hasPid
    rw [served, modStats_remaining remaining, ← remaining] at reported
    have same := copyToUser_stats_inj args (congrArg Prod.snd reported)
    exact Or.inr (Or.inr ⟨t, first, alive, hasPid, isFirst, same, remaining⟩)
  · rintro (isOwn | nobody | ⟨t, found, alive, hasPid, foundFirst, same, remaining⟩)
    · exact absurd isOwn own
    · exact absurd nobody absent
    · have sameFirst : found = first := by
        have fromFound := find_eq_first.mpr foundFirst
        rw [find_eq_first.mpr isFirst] at fromFound
        exact (Option.some.inj fromFound).symm
      subst sameFirst
      have plain : c.sysGetStats pid st = (0, c.copyToUser (c.stats t).bytes st) := by
        rw [served, modStats_remaining remaining, ← remaining, ← same]
      exact {
        unique := unique
        reported := fun u aliveToo namedToo => by
          rw [plain, unique u t aliveToo alive namedToo hasPid]
        missing := fun gone => absurd hasPid (gone t alive)
        unchanged := by
          rw [plain]
          exact copyToUser_samePcbs c _ st }

/-- While fewer than `2 ^ 31` PIDs have been issued, `sys_get_stats` is right
exactly if the PCB that it finds holds what it should report. -/
theorem get_stats_right
    (run : Library.Observe step watchPids (fun _ _ => True) (boot image) 2 s issued)
    (few : issued < 2 ^ 31) (nonneg : 0 ≤ pid.toInt) (valid : ValidStats s st) :
    StatsRight s.userToSysStats pid st ↔ Reported s.userToSysStats pid.toInt := by
  have orderly := orderly_of_reachable (Library.Reach.unobserved run)
  have pids := pidsIssued_of_run run few
  have args : ValidStats s.userToSysStats st :=
    ⟨valid.notNull, valid.allowed, valid.mapped⟩
  exact statsRight_iff args nonneg orderly.settled.currentLive pids.distinct

/-- The first process asks for its child. -/
theorem get_stats_right_child :
    StatsRight (Library.lastState (Library.observed step watchPids) (boot sampleImage, 2)
      [.syscall .fork]).1.userToSysStats 2 0x10A000 := by
  have evaluated : let s := (Library.lastState (Library.observed step watchPids)
      (boot sampleImage, 2) [.syscall .fork]).1
      (∀ k < 28, (s.mm.translate s.cr3 (((0x10A000 : UInt32) +
          UInt32.ofNat k).toNat / pageSize)).isSome) ∧
        s.userToSysStats.live 2 = true ∧ (s.userToSysStats.task 2).pid = 2 ∧
        (∀ u < (2 : TaskId), (s.userToSysStats.task u).pid ≠ 2) ∧
        (s.userToSysStats.stats 2).remainingTicks =
          (s.userToSysStats.stats s.userToSysStats.current).remainingTicks := by
    decide +kernel
  obtain ⟨mapped, alive, named, isFirst, remaining⟩ := evaluated
  refine (get_stats_right (Library.Reach.lastObserved fun _ _ _ => trivial)
    (by decide +kernel) (by decide) ⟨by decide, by decide, mapped⟩).mpr ?_
  exact Or.inr (Or.inr ⟨2, 2, alive, named, ⟨named, isFirst⟩, rfl, remaining⟩)

/-- After a tick of the clock the first process overwrites its child's
`remaining_ticks`. -/
theorem get_stats_writes : ∃ s issued,
    Library.Observe step watchPids (fun _ _ => True) (boot sampleImage) 2 s issued ∧
      issued < 2 ^ 31 ∧ ValidStats s 0x10A000 ∧
        ¬StatsRight s.userToSysStats 2 0x10A000 := by
  have evaluated : let s := (Library.lastState (Library.observed step watchPids)
      (boot sampleImage, 2) [.syscall .fork, .clock]).1
      (∀ k < 28, (s.mm.translate s.cr3 (((0x10A000 : UInt32) +
          UInt32.ofNat k).toNat / pageSize)).isSome) ∧
        (s.userToSysStats.stats 2).remainingTicks = 10 ∧
        ((s.userToSysStats.sysGetStats 2 0x10A000).2.stats 2).remainingTicks = 9 := by
    decide +kernel
  obtain ⟨mapped, before, after⟩ := evaluated
  refine ⟨_, _, Library.Reach.lastObserved fun _ _ _ => trivial, ?_,
    ⟨by decide, by decide, mapped⟩, fun right => ?_⟩
  · decide +kernel
  · rw [right.unchanged.stats, before] at after
    exact absurd after (by decide)

end Kernel

end Zeos
