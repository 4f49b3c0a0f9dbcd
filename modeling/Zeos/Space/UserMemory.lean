import Zeos.Sched.Reachable
import Zeos.Space.Access

/-!
# System calls and user memory

The bytes that `copy_from_user` and `copy_to_user` touch for a user program, and
the blocks that a program names in a system call.  `access_ok` admits one page
behind the data pages and, because its first case falls through to the second,
the code pages for writing; `sys_write` does not call it.
-/

namespace Zeos

/-- A block of user memory that is read or written. -/
structure Transfer where
  kind : Access
  start : UInt32
  size : Nat
  deriving DecidableEq

/-- The addresses of the bytes of a block. -/
def Transfer.bytes (x : Transfer) : List UInt32 :=
  (List.range x.size).map fun i => x.start + UInt32.ofNat i

/-- The blocks that the arguments of a call name; a size is an
`unsigned long` in `access_ok`. -/
def Syscall.blocks : Syscall → List Transfer
  | .write _ buffer size => [⟨.verifyRead, buffer, size.toUInt32.toNat⟩]
  | .read _ buf count => [⟨.verifyWrite, buf, count.toUInt32.toNat⟩]
  | .getStats _ st => [⟨.verifyWrite, st, 28⟩]
  | .clone function stack => [⟨.verifyWrite, stack, 4⟩, ⟨.verifyRead, function, 4⟩]
  | _ => []

namespace Kernel

variable {s s' : Kernel} {event : Event} {image : BootImage} {x : Transfer}

/-- A page that the kernel may read (a code, data or mapped heap page of the
current process) or write (no code page) for the current process. -/
def UserPage (s : Kernel) (kind : Access) (page : Nat) : Prop :=
  (pagLogInitCode ≤ page ∧ page < heapInitPage ∧
      (kind = .verifyWrite → pagLogInitData ≤ page)) ∨
    (heapInitPage ≤ page ∧ page < totalPages ∧
      (s.mm.pagusrTable s.currentTask.dirPagesBaseAddr page).present = true)

/-- The block is user memory of the current process. -/
def UserBlock (s : Kernel) (x : Transfer) : Prop :=
  ∀ address ∈ x.bytes, s.UserPage x.kind (address.toNat / pageSize)

/-- What the loop of `sys_read_keyboard` gives to the user when it ends. -/
def delivery (s : Kernel) (buf : UInt32) (n : Int) (stored : List UInt8) :
    List Transfer :=
  if ((deliver n stored s.kbd).1.length : Int) < n then []
  else [⟨.verifyWrite, buf, (deliver n stored s.kbd).1.length⟩]

/-- The block that `sys_write` copies. -/
def writeTransfers (fd : Int32) (buffer : UInt32) (size : Int32) :
    List Transfer :=
  if checkFd fd.toInt true < 0 ∨ buffer = 0 ∨ size.toInt < 0 then []
  else [⟨.verifyRead, buffer, size.toInt.toNat⟩]

/-- The block that `sys_read` copies before it blocks for the first time. -/
def readTransfers (s : Kernel) (fd : Int32) (buf : UInt32) (count : Int32) :
    List Transfer :=
  if ReadAccepted fd buf count ∧ s.listEmpty .keyboardqueue = true ∧
      s.kbd.cbIsEmpty = false then
    s.delivery buf count.toInt []
  else []

/-- The block that `sys_get_stats` copies. -/
def getStatsTransfers (s : Kernel) (pid : Int32) (st : UInt32) :
    List Transfer :=
  if pid.toInt < 0 ∨ st = 0 ∨ accessOk .verifyWrite st 28 = false ∨
      ∀ i, (s.task i).pid ≠ pid.toInt then []
  else [⟨.verifyWrite, st, 28⟩]

/-- The blocks that `copy_from_user` and `copy_to_user` copy at an event. -/
def transfers (s : Kernel) : Event → List Transfer
  | .syscall (.write fd buffer size) => writeTransfers fd buffer size
  | .syscall (.read fd buf count) => s.readTransfers fd buf count
  | .syscall (.getStats pid st) => s.getStatsTransfers pid st
  | .resume =>
      match s.context s.current with
      | .readKeyboard buf n stored => s.delivery buf n stored
      | _ => []
  | _ => []

/-- The call returns a negative error and has no other effect than the time it
is charged. -/
def Refused (s : Kernel) (call : Syscall) : Prop :=
  ∃ error : Int, 0 < error ∧
    s.userToSysStats.service call = (some (-error), s.userToSysStats)

/-- Only user memory of the caller is copied, and a call that names other memory
is refused. -/
structure UserMemoryOnly (s : Kernel) (event : Event) : Prop where
  inside : ∀ x ∈ s.transfers event, s.UserBlock x
  refused : ∀ call, event = .syscall call → ∀ x ∈ call.blocks,
    ¬ s.UserBlock x → s.Refused call

/-! ## The transfers are those of the model -/

end Kernel

namespace Memory

theorem storeByte_translate (mm : Memory) (dir d : DirId) (address : UInt32)
    (value : UInt8) (page : Nat) :
    (mm.storeByte dir address value).translate d page = mm.translate d page := by
  unfold storeByte
  split <;> rfl

theorem storeByte_ram {mm : Memory} {dir : DirId} {address : UInt32}
    {value : UInt8} {frame offset : Nat}
    (changed : (mm.storeByte dir address value).ram frame offset ≠
      mm.ram frame offset) :
    mm.translate dir (address.toNat / pageSize) = some frame ∧
      address.toNat % pageSize = offset := by
  unfold storeByte at changed
  split at changed
  · next target found =>
      by_cases isFrame : frame = target
      · subst isFrame
        by_cases isOffset : offset = address.toNat % pageSize
        · exact ⟨found, isOffset.symm⟩
        · simp only [Function.update_self, ne_eq, Function.update_of_ne isOffset,
            not_true_eq_false] at changed
      · simp [isFrame] at changed
  · exact absurd rfl changed

/-- `copy_to_user` writes the bytes of its block and no others. -/
theorem copyToUser_ram (dir : DirId) (frame offset : Nat) :
    ∀ (values : List UInt8) (dest : UInt32) (mm : Memory),
      (copyToUser dir values dest mm).ram frame offset ≠ mm.ram frame offset →
        ∃ address ∈ (⟨.verifyWrite, dest, values.length⟩ : Transfer).bytes,
          mm.translate dir (address.toNat / pageSize) = some frame ∧
            address.toNat % pageSize = offset
  | [], dest, mm, changed => absurd rfl changed
  | value :: values, dest, mm, changed => by
      by_cases first : (mm.storeByte dir dest value).ram frame offset =
          mm.ram frame offset
      · rw [copyToUser, ← first] at changed
        obtain ⟨address, member, found, position⟩ :=
          copyToUser_ram dir frame offset values _ _ changed
        rw [storeByte_translate] at found
        refine ⟨address, ?_, found, position⟩
        obtain ⟨i, inRange, rfl⟩ := List.mem_map.mp member
        refine List.mem_map.mpr ⟨i + 1, ?_, ?_⟩
        · simpa using inRange
        · dsimp only
          rw [show UInt32.ofNat (i + 1) = 1 + UInt32.ofNat i by
            rw [Nat.add_comm, UInt32.ofNat_add]
            rfl, UInt32.add_assoc]
      · obtain ⟨found, position⟩ := storeByte_ram first
        refine ⟨dest, List.mem_map.mpr ⟨0, ?_, ?_⟩, found, position⟩
        · simp
        · exact UInt32.add_zero dest

theorem copyFromUser_add (mm : Memory) (dir : DirId) (later : Nat) :
    ∀ (size : Nat) (start : UInt32) {first second : List UInt8},
      mm.copyFromUser dir size start = some first →
      mm.copyFromUser dir later (start + UInt32.ofNat size) = some second →
      mm.copyFromUser dir (size + later) start = some (first ++ second)
  | 0, start, first, second, loaded, rest => by
      cases loaded
      rw [show start + UInt32.ofNat 0 = start from UInt32.add_zero start] at rest
      simpa using rest
  | size + 1, start, first, second, loaded, rest => by
      have next : start + UInt32.ofNat (size + 1) =
          start + 1 + UInt32.ofNat size := by
        rw [Nat.add_comm, UInt32.ofNat_add, UInt32.add_assoc]
        rfl
      rw [copyFromUser, Option.bind_eq_bind, Option.bind_eq_some_iff] at loaded
      obtain ⟨value, found, loaded⟩ := loaded
      obtain ⟨values, loadedRest, shape⟩ := Option.bind_eq_some_iff.mp loaded
      cases shape
      rw [next] at rest
      have both := copyFromUser_add mm dir later size (start + 1) loadedRest rest
      rw [Nat.add_right_comm, copyFromUser, found, Option.bind_eq_bind,
        Option.bind_some, both]
      rfl

end Memory

namespace Kernel

variable {s s' : Kernel} {event : Event} {image : BootImage} {x : Transfer}
  {frame offset : Nat}

/-- Rounds of the loop of `sys_write` that end without a fault print the bytes
they read from the user. -/
theorem writeChunks_reads (buffer : UInt32) (size chunks : Nat)
    (finished : ((List.range chunks).foldl (writeChunk buffer size)
      (0, s)).2.mm.fault = false) :
    ∃ values, s.mm.copyFromUser s.cr3 (min size (2048 * chunks)) buffer =
        some values ∧
      (List.range chunks).foldl (writeChunk buffer size) (0, s) =
        (((min size (2048 * chunks) : Nat) : Int),
          { s with console := s.console ++ values }) := by
  induction chunks with
  | zero =>
      refine ⟨[], ?_, ?_⟩
      · simp [Memory.copyFromUser]
      · simp
  | succ chunks inductionHypothesis =>
      rw [List.range_succ, List.foldl_append, List.foldl_cons, List.foldl_nil]
        at finished ⊢
      have before : ((List.range chunks).foldl (writeChunk buffer size)
          (0, s)).2.mm.fault = false := by
        unfold writeChunk at finished
        dsimp only at finished
        split at finished
        · exact finished
        · cases finished
      obtain ⟨values, loaded, shape⟩ := inductionHypothesis before
      rw [shape] at finished ⊢
      unfold writeChunk at finished ⊢
      dsimp only at finished ⊢
      split at finished
      · next later found =>
          refine ⟨values ++ later, ?_, ?_⟩
          · by_cases inside : 2048 * chunks ≤ size
            · have size' : min size (2048 * (chunks + 1)) =
                  2048 * chunks + min 2048 (size - 2048 * chunks) := by
                omega
              rw [Nat.min_eq_right inside] at loaded
              rw [size']
              exact Memory.copyFromUser_add _ _ _ _ _ loaded found
            · have none : min 2048 (size - 2048 * chunks) = 0 := by omega
              rw [none] at found
              cases found
              rw [List.append_nil, ← loaded]
              congr 1
              omega
          · rw [List.append_assoc]
            congr 1
            omega
      · cases finished

/-- `sys_write` prints the bytes of its transfers. -/
theorem sysWrite_reads (fd : Int32) (buffer : UInt32) (size : Int32)
    (finished : (s.sysWrite fd buffer size).2.mm.fault = false) :
    (writeTransfers fd buffer size = [] ∧
        (s.sysWrite fd buffer size).2.console = s.console) ∨
      ∃ x values, writeTransfers fd buffer size = [x] ∧
        s.mm.copyFromUser s.cr3 x.size x.start = some values ∧
        (s.sysWrite fd buffer size).2.console = s.console ++ values := by
  unfold sysWrite at finished ⊢
  unfold writeTransfers
  dsimp only at finished ⊢
  by_cases wrongFd : checkFd fd.toInt true < 0
  · rw [if_pos wrongFd, if_pos (Or.inl wrongFd)]
    exact Or.inl ⟨rfl, rfl⟩
  by_cases null : buffer = 0
  · rw [if_neg wrongFd, if_pos null, if_pos (Or.inr (Or.inl null))]
    exact Or.inl ⟨rfl, rfl⟩
  by_cases negative : size.toInt < 0
  · rw [if_neg wrongFd, if_neg null, if_pos negative,
      if_pos (Or.inr (Or.inr negative))]
    exact Or.inl ⟨rfl, rfl⟩
  · rw [if_neg wrongFd, if_neg null, if_neg negative] at finished ⊢
    rw [if_neg (by simp [wrongFd, null, negative])]
    have whole : min size.toInt.toNat
        (2048 * ((size.toInt.toNat + 2047) / 2048)) = size.toInt.toNat := by
      omega
    obtain ⟨values, loaded, shape⟩ := writeChunks_reads buffer size.toInt.toNat
      ((size.toInt.toNat + 2047) / 2048) finished
    rw [whole] at loaded
    rw [shape]
    exact Or.inr ⟨_, values, rfl, loaded, rfl⟩

/-- `sys_get_stats` writes the bytes of its transfers. -/
theorem sysGetStats_writes {pid : Int32} {st : UInt32}
    (changed : (s.sysGetStats pid st).2.mm.ram frame offset ≠
      s.mm.ram frame offset) :
    ∃ x ∈ s.getStatsTransfers pid st, ∃ address ∈ x.bytes,
      s.mm.translate s.cr3 (address.toNat / pageSize) = some frame ∧
        address.toNat % pageSize = offset := by
  unfold sysGetStats at changed
  unfold getStatsTransfers
  by_cases negative : pid.toInt < 0
  · rw [if_pos negative] at changed
    exact absurd rfl changed
  by_cases null : st = 0
  · rw [if_neg negative, if_pos null] at changed
    exact absurd rfl changed
  by_cases denied : ¬ accessOk .verifyWrite st 28
  · rw [if_neg negative, if_neg null, if_pos denied] at changed
    exact absurd rfl changed
  rw [if_neg negative, if_neg null, if_neg denied] at changed
  have length : ∀ stats : Stats, stats.bytes.length = 28 := fun _ => rfl
  have named : ∀ i : TaskId, (s.task i).pid = pid.toInt →
      ¬ (pid.toInt < 0 ∨ st = 0 ∨ accessOk .verifyWrite st 28 = false ∨
        ∀ i, (s.task i).pid ≠ pid.toInt) := by
    rintro i same (isNegative | isNull | isDenied | nobody)
    · exact negative isNegative
    · exact null isNull
    · exact denied (by simp [isDenied])
    · exact nobody i same
  split_ifs at changed with own
  · have touched := Memory.copyToUser_ram _ _ _ _ _ _ changed
    rw [length] at touched
    rw [if_neg (named s.current own.symm)]
    exact ⟨_, List.mem_singleton.mpr rfl, touched⟩
  · split at changed
    · next i found =>
        have same : (s.task i).pid = pid.toInt := by
          simpa using List.find?_some found
        have touched := Memory.copyToUser_ram _ _ _ _ _ _ changed
        rw [length] at touched
        rw [if_neg (named i same)]
        exact ⟨_, List.mem_singleton.mpr rfl, touched⟩
    · exact absurd rfl changed

/-- The loop of `sys_read_keyboard` writes the bytes it delivers. -/
theorem readLoop_writes {buf : UInt32} {n : Int} {stored : List UInt8}
    (changed : (complete (s.readLoop buf n stored)).mm.ram frame offset ≠
      s.mm.ram frame offset) :
    ∃ x ∈ s.delivery buf n stored, ∃ address ∈ x.bytes,
      s.mm.translate s.cr3 (address.toNat / pageSize) = some frame ∧
        address.toNat % pageSize = offset := by
  rw [readLoop_eq] at changed
  dsimp only at changed
  unfold delivery
  split_ifs at changed ⊢
  · exfalso
    apply changed
    change (schedNextRr _ _).mm.ram frame offset = _
    rw [(Keeps.schedNextRr _ _).mm]
    rfl
  · have touched := Memory.copyToUser_ram _ _ _ _ _ _ changed
    exact ⟨_, List.mem_singleton.mpr rfl, touched⟩

/-! ## Blocks and pages -/

/-- The block ends in the address space, and its pages are user pages. -/
def SpanInside (s : Kernel) (x : Transfer) : Prop :=
  x.size = 0 ∨ (x.start.toNat + x.size ≤ 2 ^ 32 ∧
    ∀ page, x.start.toNat / pageSize ≤ page →
      page ≤ (x.start.toNat + x.size - 1) / pageSize → s.UserPage x.kind page)

theorem mem_bytes {address : UInt32} : address ∈ x.bytes ↔
    ∃ i < x.size, address = x.start + UInt32.ofNat i := by
  unfold Transfer.bytes
  simp only [List.mem_map, List.mem_range, eq_comm]

theorem toNat_offset (start : UInt32) (i : Nat) :
    (start + UInt32.ofNat i).toNat = (start.toNat + i) % 2 ^ 32 := by
  rw [UInt32.toNat_add, UInt32.toNat_ofNat']
  omega

/-- The null page is no user page. -/
theorem userPage_pos {kind : Access} {page : Nat} (user : s.UserPage kind page) :
    pagLogInitCode ≤ page := by
  rcases user with ⟨lower, _⟩ | ⟨lower, _⟩
  · exact lower
  · exact le_trans (by decide) lower

theorem userBlock_iff : s.UserBlock x ↔ s.SpanInside x := by
  have bound := x.start.toNat_lt
  constructor
  · intro user
    by_cases empty : x.size = 0
    · exact Or.inl empty
    have inSpace : x.start.toNat + x.size ≤ 2 ^ 32 := by
      by_contra beyond
      have wraps : ∃ i < x.size, (x.start.toNat + i) % 2 ^ 32 = 0 := by
        by_cases isNull : x.start.toNat = 0
        · exact ⟨0, by omega, by omega⟩
        · exact ⟨2 ^ 32 - x.start.toNat, by omega, by omega⟩
      obtain ⟨i, inBlock, null⟩ := wraps
      have page := userPage_pos (user _ (mem_bytes.mpr ⟨i, inBlock, rfl⟩))
      rw [toNat_offset, null] at page
      exact absurd page (by decide)
    refine Or.inr ⟨inSpace, fun page first last => ?_⟩
    have position : ∃ i < x.size, (x.start.toNat + i) / pageSize = page := by
      by_cases isFirst : page = x.start.toNat / pageSize
      · exact ⟨0, by omega, isFirst.symm⟩
      · refine ⟨page * pageSize - x.start.toNat, ?_, ?_⟩
        · simp only [pageSize] at *
          omega
        · simp only [pageSize] at *
          omega
    obtain ⟨i, inBlock, isPage⟩ := position
    have here := user _ (mem_bytes.mpr ⟨i, inBlock, rfl⟩)
    rw [toNat_offset, Nat.mod_eq_of_lt (by omega), isPage] at here
    exact here
  · rintro (empty | ⟨inSpace, pages⟩) address member
    · obtain ⟨i, inBlock, _⟩ := mem_bytes.mp member
      omega
    · obtain ⟨i, inBlock, rfl⟩ := mem_bytes.mp member
      rw [toNat_offset, Nat.mod_eq_of_lt (by omega)]
      apply pages
      · exact Nat.div_le_div_right (by omega)
      · exact Nat.div_le_div_right (by omega)

/-- What is left to check when `access_ok` admits a block: it does not begin in
the code pages if it is written, and where it goes past the data pages the heap
exists. -/
def FitsUser (s : Kernel) (x : Transfer) : Prop :=
  (x.kind = .verifyWrite → pagLogInitData ≤ x.start.toNat / pageSize) ∧
    (heapStart < x.start.toNat + x.size →
      (s.mm.pagusrTable s.currentTask.dirPagesBaseAddr heapInitPage).present =
        true)

theorem accessOk_bounds {kind : Access} {addr size : UInt32}
    (granted : accessOk kind addr size = true) (small : size.toNat < 2 ^ 31) :
    pagLogInitCode * pageSize ≤ addr.toNat ∧
      addr.toNat + size.toNat < (heapInitPage + 1) * pageSize := by
  have addrBound := addr.toNat_lt
  have pages := accessOk_iff.mp granted
  rw [UInt32.toNat_add] at pages
  simp only [pageSize, heapInitPage, pagLogInitData, pagLogInitCode, numPagCode,
    numPagData] at pages ⊢
  omega

theorem span_iff_fits {size : UInt32}
    (granted : accessOk x.kind x.start size = true) (sized : x.size = size.toNat)
    (small : x.size < 2 ^ 31) (notEmpty : x.size ≠ 0) :
    s.SpanInside x ↔ s.FitsUser x := by
  obtain ⟨lower, upper⟩ := accessOk_bounds granted (sized ▸ small)
  rw [← sized] at upper
  unfold SpanInside FitsUser UserPage
  simp only [pageSize, heapStart, heapInitPage, pagLogInitData, pagLogInitCode,
    numPagCode, numPagData, totalPages] at lower upper ⊢
  constructor
  · rintro (empty | ⟨inSpace, pages⟩)
    · exact absurd empty notEmpty
    · constructor
      · intro writes
        rcases pages _ (le_refl _) (Nat.div_le_div_right (by omega)) with
          ⟨_, _, data⟩ | ⟨heap, _⟩
        · exact data writes
        · omega
      · intro past
        rcases pages 284 (by omega) (by omega) with
          ⟨_, below, _⟩ | ⟨_, _, present⟩
        · omega
        · exact present
  · rintro ⟨start, heap⟩
    refine Or.inr ⟨by omega, fun page first last => ?_⟩
    by_cases isHeap : page = 284
    · subst isHeap
      exact Or.inr ⟨le_refl _, by decide, heap (by omega)⟩
    · refine Or.inl ⟨by omega, by omega, fun writes => ?_⟩
      exact le_trans (start writes) first

/-! ## Calls that are refused -/

theorem Refused.of_result {call : Syscall} (error : Int) (positive : 0 < error)
    (result : s.userToSysStats.service call = (some (-error), s.userToSysStats)) :
    s.Refused call :=
  ⟨error, positive, result⟩

theorem not_refused_of_nonneg {call : Syscall} {result : Int}
    (answer : (s.userToSysStats.service call).1 = some result)
    (nonneg : 0 ≤ result) : ¬ s.Refused call := by
  rintro ⟨error, positive, refused⟩
  rw [refused, Option.some_inj] at answer
  omega

theorem checkFd_write (fd : Int32) : checkFd fd.toInt true < 0 ↔ fd.toInt ≠ 1 := by
  unfold checkFd
  split_ifs <;> simp at * <;> omega

/-- The loop of `sys_write` adds up what it printed. -/
theorem writeChunks_nonneg (buffer : UInt32) (size : Nat) :
    ∀ (chunks : List Nat) (ret : Int) (s : Kernel), 0 ≤ ret →
      0 ≤ (chunks.foldl (writeChunk buffer size) (ret, s)).1
  | [], _, _, nonneg => nonneg
  | chunk :: chunks, ret, s, nonneg => by
      rw [List.foldl_cons]
      unfold writeChunk
      dsimp only
      split
      · exact writeChunks_nonneg buffer size chunks _ _ (by omega)
      · exact writeChunks_nonneg buffer size chunks _ _ nonneg

theorem write_refused_iff (fd : Int32) (buffer : UInt32) (size : Int32) :
    s.Refused (.write fd buffer size) ↔
      checkFd fd.toInt true < 0 ∨ buffer = 0 ∨ size.toInt < 0 := by
  have answer : s.userToSysStats.service (.write fd buffer size) =
      (some (s.userToSysStats.sysWrite fd buffer size).1,
        (s.userToSysStats.sysWrite fd buffer size).2) := rfl
  by_cases wrongFd : checkFd fd.toInt true < 0
  · refine iff_of_true (.of_result (-checkFd fd.toInt true) (by omega) ?_)
      (Or.inl wrongFd)
    rw [answer, sysWrite, if_pos wrongFd, Int.neg_neg]
  by_cases null : buffer = 0
  · refine iff_of_true (.of_result efault (by decide) ?_)
      (Or.inr (Or.inl null))
    rw [answer, sysWrite, if_neg wrongFd, if_pos null]
  by_cases negative : size.toInt < 0
  · refine iff_of_true (.of_result einval (by decide) ?_)
      (Or.inr (Or.inr negative))
    rw [answer, sysWrite, if_neg wrongFd, if_neg null, if_pos negative]
  · refine iff_of_false (not_refused_of_nonneg (congrArg Prod.fst answer) ?_)
      (by simp [wrongFd, null, negative])
    rw [sysWrite, if_neg wrongFd, if_neg null, if_neg negative]
    exact writeChunks_nonneg _ _ _ _ _ (le_refl _)

theorem read_refused_iff (orderly : s.Orderly) (fd : Int32) (buf : UInt32)
    (count : Int32) :
    s.Refused (.read fd buf count) ↔ ¬ ReadAccepted fd buf count := by
  have answer : s.userToSysStats.service (.read fd buf count) =
      s.userToSysStats.sysRead fd buf count := rfl
  have cbIsEmpty := orderly.userToSysStats.cbIsEmpty
  by_cases denied : ¬ accessOk .verifyWrite buf count.toUInt32
  · refine iff_of_true (.of_result efault (by decide) ?_)
      fun accepted => denied accepted.1
    rw [answer, sysRead, if_pos denied]
  by_cases wrongFd : checkFd fd.toInt false < 0
  · refine iff_of_true (.of_result (-checkFd fd.toInt false) (by omega) ?_)
      fun accepted => absurd accepted.2.1 (by omega)
    rw [answer, sysRead, if_neg denied, if_pos wrongFd, Int.neg_neg]
  by_cases null : buf = 0
  · refine iff_of_true (.of_result efault (by decide) ?_)
      fun accepted => accepted.2.2.1 null
    rw [answer, sysRead, if_neg denied, if_neg wrongFd, if_pos null]
  by_cases negative : count.toInt < 0
  · refine iff_of_true (.of_result einval (by decide) ?_)
      fun accepted => absurd accepted.2.2.2 (by omega)
    rw [answer, sysRead, if_neg denied, if_neg wrongFd, if_neg null,
      if_pos negative]
  · have accepted : ReadAccepted fd buf count :=
      ⟨not_not.mp denied, by omega, null, by omega⟩
    refine iff_of_false ?_ (not_not.mpr accepted)
    rintro ⟨error, _, refused⟩
    rw [answer] at refused
    rcases sysRead_cases cbIsEmpty fd buf count with ⟨rejected, _⟩ | ⟨_, waits⟩
    · exact rejected accepted
    · rw [waits] at refused
      cases refused

theorem getStats_refused_iff (pid : Int32) (st : UInt32) :
    s.Refused (.getStats pid st) ↔
      pid.toInt < 0 ∨ st = 0 ∨ accessOk .verifyWrite st 28 = false ∨
        ∀ i, (s.task i).pid ≠ pid.toInt := by
  have answer : s.userToSysStats.service (.getStats pid st) =
      (some (s.userToSysStats.sysGetStats pid st).1,
        (s.userToSysStats.sysGetStats pid st).2) := rfl
  by_cases negative : pid.toInt < 0
  · refine iff_of_true (.of_result einval (by decide) ?_)
      (Or.inl negative)
    rw [answer, sysGetStats, if_pos negative]
  by_cases null : st = 0
  · refine iff_of_true (.of_result efault (by decide) ?_)
      (Or.inr (Or.inl null))
    rw [answer, sysGetStats, if_neg negative, if_pos null]
  by_cases denied : ¬ accessOk .verifyWrite st 28
  · refine iff_of_true (.of_result efault (by decide) ?_)
      (Or.inr (Or.inr (Or.inl (by simpa using denied))))
    rw [answer, sysGetStats, if_neg negative, if_neg null, if_pos denied]
  by_cases nobody : ∀ i, (s.task i).pid ≠ pid.toInt
  · refine iff_of_true (.of_result esrch (by decide) ?_)
      (Or.inr (Or.inr (Or.inr nobody)))
    have notOwn : ¬ pid.toInt = s.userToSysStats.currentTask.pid := fun own =>
      nobody s.current own.symm
    have absent : (List.finRange nrTasks).find? (fun i =>
        (s.userToSysStats.task i).pid = pid.toInt) = none := by
      apply List.find?_eq_none.mpr
      intro i _ same
      exact nobody i (of_decide_eq_true same)
    rw [answer, sysGetStats, if_neg negative, if_neg null, if_neg denied,
      if_neg notOwn, absent]
  · have granted : accessOk .verifyWrite st 28 = true := not_not.mp denied
    refine iff_of_false (not_refused_of_nonneg
      ((congrArg Prod.fst answer).trans ?_) (le_refl 0))
      (by simp only [negative, null, granted, nobody, or_false, Bool.true_eq_false,
        not_false_eq_true])
    rw [sysGetStats, if_neg negative, if_neg null, if_neg denied]
    split_ifs
    · rfl
    · split
      · rfl
      · next absent =>
          exfalso
          apply nobody
          intro i same
          have none := List.find?_eq_none.mp absent i (List.mem_finRange i)
          exact none (decide_eq_true same)

theorem clone_refused_iff (orderly : s.Orderly) (function stack : UInt32) :
    s.Refused (.clone function stack) ↔
      accessOk .verifyWrite stack 4 = false ∨
        accessOk .verifyRead function 4 = false ∨ s.queue .freequeue = [] := by
  have entered := orderly.userToSysStats
  have answer : s.userToSysStats.service (.clone function stack) =
      (some (s.userToSysStats.sysClone function stack).1,
        (s.userToSysStats.sysClone function stack).2) := rfl
  have emptyIff : s.userToSysStats.listEmpty .freequeue = true ↔
      s.queue .freequeue = [] :=
    entered.refines.listEmpty_iff (q := .freequeue) trivial
  by_cases denied : ¬ accessOk .verifyWrite stack 4 ∨
      ¬ accessOk .verifyRead function 4
  · refine iff_of_true (.of_result efault (by decide) ?_) ?_
    · rw [answer, sysClone, if_pos denied]
    · rcases denied with stackDenied | functionDenied
      · exact Or.inl (by simpa using stackDenied)
      · exact Or.inr (Or.inl (by simpa using functionDenied))
  have granted := not_or.mp denied
  by_cases empty : s.queue .freequeue = []
  · refine iff_of_true (.of_result eagain (by decide) ?_)
      (Or.inr (Or.inr empty))
    rw [answer, sysClone, if_neg denied, if_pos (emptyIff.mpr empty)]
  · refine iff_of_false ?_ (by simp_all)
    obtain ⟨child, rest, queue⟩ := List.exists_cons_of_ne_nil empty
    have dead := orderly.dead (queue ▸ List.mem_cons_self)
    rintro ⟨error, _, refused⟩
    rw [answer] at refused
    have born : (s.userToSysStats.sysClone function stack).2.live child = true := by
      rw [sysClone, if_neg denied, if_neg fun isEmpty => empty (emptyIff.mp isEmpty),
        entered.refines.listFirst queue]
      exact Function.update_self _ _ _
    rw [(Prod.mk.inj refused).2] at born
    change s.live child = true at born
    rw [dead] at born
    cases born

/-! ## When only user memory is copied -/

/-- What the checks of the calls leave to the caller.  `sys_write` looks at no
page; the other calls admit blocks that are written in the code pages or go past
the data pages where there is no heap; a finished read may deliver more
characters than the block it was called with holds. -/
def BlocksInside (s : Kernel) : Event → Prop
  | .syscall (.write fd buffer size) =>
      fd.toInt ≠ 1 ∨ buffer = 0 ∨ size.toInt < 0 ∨
        s.SpanInside ⟨.verifyRead, buffer, size.toInt.toNat⟩
  | .syscall (.read fd buf count) =>
      ¬ ReadAccepted fd buf count ∨ count.toInt = 0 ∨
        s.FitsUser ⟨.verifyWrite, buf, count.toInt.toNat⟩
  | .syscall (.getStats pid st) =>
      pid.toInt < 0 ∨ st = 0 ∨ accessOk .verifyWrite st 28 = false ∨
        (∀ i, (s.task i).pid ≠ pid.toInt) ∨ s.FitsUser ⟨.verifyWrite, st, 28⟩
  | .syscall (.clone function stack) =>
      accessOk .verifyWrite stack 4 = false ∨
        accessOk .verifyRead function 4 = false ∨ s.queue .freequeue = [] ∨
          (s.FitsUser ⟨.verifyWrite, stack, 4⟩ ∧
            s.FitsUser ⟨.verifyRead, function, 4⟩)
  | .resume =>
      match s.context s.current with
      | .readKeyboard buf n stored =>
          ((deliver n stored s.kbd).1.length : Int) < n ∨
            s.SpanInside ⟨.verifyWrite, buf, (deliver n stored s.kbd).1.length⟩
      | _ => True
  | _ => True

/-- A call that copies at most the blocks it names, and nothing when it is
refused, copies only user memory if it is refused or names only user memory. -/
theorem userMemoryOnly_iff {call : Syscall} {rejected : Prop}
    (refused : s.Refused call ↔ rejected)
    (nothing : rejected → s.transfers (.syscall call) = [])
    (named : ∀ x ∈ s.transfers (.syscall call), x ∈ call.blocks) :
    UserMemoryOnly s (.syscall call) ↔
      rejected ∨ ∀ x ∈ call.blocks, s.UserBlock x := by
  constructor
  · intro only
    by_cases isRejected : rejected
    · exact Or.inl isRejected
    · refine Or.inr fun x member => ?_
      by_contra outside
      exact isRejected (refused.mp (only.refused call rfl x member outside))
  · rintro (isRejected | inside)
    · refine ⟨?_, ?_⟩
      · rw [nothing isRejected]
        intro x member
        cases member
      · intro other same x _ _
        cases same
        exact refused.mpr isRejected
    · refine ⟨fun x member => inside x (named x member), ?_⟩
      intro other same x member outside
      cases same
      exact absurd (inside x member) outside

theorem toUInt32_toNat {value : Int32} (nonneg : 0 ≤ value.toInt) :
    value.toUInt32.toNat = value.toInt.toNat :=
  Int32.toNat_toUInt32_of_le (Int32.le_iff_toInt_le.mpr (by simpa using nonneg))

theorem write_memory_iff (fd : Int32) (buffer : UInt32) (size : Int32) :
    UserMemoryOnly s (.syscall (.write fd buffer size)) ↔
      s.BlocksInside (.syscall (.write fd buffer size)) := by
  have transfers : s.transfers (.syscall (.write fd buffer size)) =
      writeTransfers fd buffer size := rfl
  rw [userMemoryOnly_iff (write_refused_iff fd buffer size)]
  · change _ ↔ fd.toInt ≠ 1 ∨ buffer = 0 ∨ size.toInt < 0 ∨ _
    rw [checkFd_write, or_assoc, or_assoc]
    refine or_congr_right (or_congr_right ?_)
    by_cases negative : size.toInt < 0
    · exact iff_of_true (Or.inl negative) (Or.inl negative)
    · rw [← toUInt32_toNat (not_lt.mp negative), ← userBlock_iff]
      simp [Syscall.blocks]
  · intro rejected
    rw [transfers, writeTransfers, if_pos rejected]
  · intro x member
    rw [transfers, writeTransfers] at member
    split_ifs at member with rejected
    · cases member
    · have nonneg : 0 ≤ size.toInt := by
        by_contra negative
        exact rejected (Or.inr (Or.inr (by omega)))
      rw [← toUInt32_toNat nonneg] at member
      exact member

theorem read_memory_iff (orderly : s.Orderly) (fd : Int32) (buf : UInt32)
    (count : Int32) :
    UserMemoryOnly s (.syscall (.read fd buf count)) ↔
      s.BlocksInside (.syscall (.read fd buf count)) := by
  have transfers : s.transfers (.syscall (.read fd buf count)) = [] := by
    change s.readTransfers fd buf count = []
    unfold readTransfers
    rw [if_neg]
    rintro ⟨_, _, notEmpty⟩
    rw [orderly.cbIsEmpty] at notEmpty
    cases notEmpty
  rw [userMemoryOnly_iff (read_refused_iff orderly fd buf count)
    (fun _ => transfers) (by rw [transfers]; simp)]
  refine or_congr_right' fun accepted => ?_
  obtain ⟨granted, _, _, nonneg⟩ := not_not.mp accepted
  have sized := toUInt32_toNat nonneg
  have small : count.toInt.toNat < 2 ^ 31 := by
    have upper := count.toInt_lt
    omega
  have block : (∀ x ∈ (Syscall.read fd buf count).blocks, s.UserBlock x) ↔
      s.SpanInside ⟨.verifyWrite, buf, count.toInt.toNat⟩ := by
    rw [← userBlock_iff, ← sized]
    simp [Syscall.blocks]
  rw [block]
  by_cases empty : count.toInt = 0
  · refine iff_of_true (Or.inl ?_) (Or.inl empty)
    dsimp only
    omega
  · have notEmpty : count.toInt.toNat ≠ 0 := by omega
    have spans := span_iff_fits (s := s)
      (x := ⟨.verifyWrite, buf, count.toInt.toNat⟩) granted sized.symm small notEmpty
    rw [spans]
    exact (or_iff_right empty).symm

theorem getStats_memory_iff (pid : Int32) (st : UInt32) :
    UserMemoryOnly s (.syscall (.getStats pid st)) ↔
      s.BlocksInside (.syscall (.getStats pid st)) := by
  have transfers : s.transfers (.syscall (.getStats pid st)) =
      s.getStatsTransfers pid st := rfl
  rw [userMemoryOnly_iff (getStats_refused_iff pid st)]
  · change _ ↔ pid.toInt < 0 ∨ st = 0 ∨ accessOk .verifyWrite st 28 = false ∨ _
    rw [or_assoc, or_assoc, or_assoc]
    refine or_congr_right (or_congr_right (or_congr_right' fun granted => ?_))
    refine or_congr_right ?_
    rw [Bool.not_eq_false] at granted
    rw [← span_iff_fits (s := s) (x := ⟨.verifyWrite, st, 28⟩) granted rfl
      (by dsimp only; omega) (by dsimp only; omega), ← userBlock_iff]
    simp [Syscall.blocks]
  · intro rejected
    rw [transfers, getStatsTransfers, if_pos rejected]
  · intro x member
    rw [transfers, getStatsTransfers] at member
    split_ifs at member
    · cases member
    · exact member

theorem clone_memory_iff (orderly : s.Orderly) (function stack : UInt32) :
    UserMemoryOnly s (.syscall (.clone function stack)) ↔
      s.BlocksInside (.syscall (.clone function stack)) := by
  rw [userMemoryOnly_iff (clone_refused_iff orderly function stack)
    (fun _ => rfl) (by rintro x ⟨⟩)]
  change _ ↔ accessOk .verifyWrite stack 4 = false ∨
    accessOk .verifyRead function 4 = false ∨ s.queue .freequeue = [] ∨ _
  rw [or_assoc, or_assoc]
  refine or_congr_right' fun stackGranted => or_congr_right' fun granted => ?_
  rw [Bool.not_eq_false] at stackGranted granted
  refine or_congr_right ?_
  rw [← span_iff_fits (s := s) (x := ⟨.verifyWrite, stack, 4⟩) stackGranted rfl
      (by dsimp only; omega) (by dsimp only; omega),
    ← span_iff_fits (s := s) (x := ⟨.verifyRead, function, 4⟩) granted rfl
      (by dsimp only; omega) (by dsimp only; omega), ← userBlock_iff, ← userBlock_iff]
  simp [Syscall.blocks]

theorem resume_memory_iff :
    UserMemoryOnly s .resume ↔ s.BlocksInside .resume := by
  have only : UserMemoryOnly s .resume ↔
      ∀ x ∈ s.transfers .resume, s.UserBlock x :=
    ⟨fun only => only.inside, fun inside => ⟨inside, fun _ same => by cases same⟩⟩
  rw [only]
  unfold transfers BlocksInside
  cases s.context s.current with
  | readKeyboard buf n stored =>
      dsimp only
      unfold delivery
      split_ifs with short
      · simp [short]
      · simp only [List.mem_singleton, forall_eq, userBlock_iff, short, false_or]
  | _ => simp

/-- In every reachable state, a step copies only user memory of the process that
runs, and refuses calls that name other memory, exactly when its blocks are
inside. -/
theorem user_memory_only (run : Reachable image s) (event : Event) :
    UserMemoryOnly s event ↔ s.BlocksInside event := by
  have orderly := orderly_of_reachable run
  have nothing : ∀ call : Syscall, s.transfers (.syscall call) = [] →
      call.blocks = [] → UserMemoryOnly s (.syscall call) := by
    intro call none unnamed
    refine ⟨by rw [none]; simp, fun other same x member => ?_⟩
    cases same
    rw [unnamed] at member
    cases member
  cases event with
  | syscall call =>
      cases call with
      | write fd buffer size => exact write_memory_iff fd buffer size
      | read fd buf count => exact read_memory_iff orderly fd buf count
      | getStats pid st => exact getStats_memory_iff pid st
      | clone function stack => exact clone_memory_iff orderly function stack
      | _ => exact iff_of_true (nothing _ rfl rfl) trivial
  | resume => exact resume_memory_iff
  | _ => exact iff_of_true ⟨by rintro x ⟨⟩, by rintro call ⟨⟩⟩ trivial

theorem user_memory_only_booted :
    UserMemoryOnly (boot sampleImage) (.syscall (.write 1 0x1000 1)) ↔
      (boot sampleImage).BlocksInside (.syscall (.write 1 0x1000 1)) :=
  user_memory_only (show Reachable sampleImage (boot sampleImage) from .start) _

/-- `sys_write` prints a byte of the kernel's first page. -/
theorem kernel_memory_printed : ∃ s event s', Reachable sampleImage s ∧
    s.step event = some s' ∧ ¬ UserMemoryOnly s event := by
  have taken : ((boot sampleImage).step (.syscall (.write 1 0x1000 1))).isSome := by
    decide +kernel
  obtain ⟨s', stepped⟩ := Option.isSome_iff_exists.mp taken
  refine ⟨boot sampleImage, _, s', .start, stepped, fun only => ?_⟩
  have page := only.inside ⟨.verifyRead, 0x1000, 1⟩
    (show _ ∈ writeTransfers 1 0x1000 1 by decide) 0x1000 (by decide)
  exact absurd (userPage_pos page) (by decide)

end Kernel

end Zeos
