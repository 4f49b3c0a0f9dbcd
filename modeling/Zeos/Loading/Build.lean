import Mathlib
import Zeos.Library.Bytes

/-!
# The boot image

`build.c`: the boot sector without its header, the system and the user program
are written one after the other, and then the sizes over the first bytes of the
system and over a word of the boot sector.

A file is the list of its bytes.  The calls of the host's system succeed, but for
`open`, which fails for a name that is no file.  `die` ends the program with a
text.
-/

namespace Zeos.Loading

open Library

/-- The files by name. -/
abbrev Files := String → Option (List UInt8)

/-- `sizeof(buf)`. -/
def bufSize : Nat := 1024

def minixHeaderLen : Nat := 32

/-- The beginning of the header of an executable that `ld86` made. -/
def minixHdr : List UInt8 := [0x01, 0x03, 0x10, 0x04, 0x20, 0x00, 0x00, 0x00]

/-- `lb[i]`, the field number `i` of the header. -/
def headerField (header : List UInt8) (i : Nat) : Nat :=
  fieldAt header (4 * i) 4

/-- The text for a file that is not there. -/
def unableToOpen (name : String) : String :=
  "Unable to open `" ++ name ++ "': No such file or directory"

/-- `minix_open`: the part of the file behind its header. -/
def minixOpen (files : Files) (name : String) : Except String (List UInt8) :=
  match files name with
  | none => .error (unableToOpen name)
  | some file =>
      let header := file.take minixHeaderLen
      if header.length ≠ minixHeaderLen then
        .error (name ++ ": Unable to read header")
      else if header.take minixHdr.length ≠ minixHdr ∨ headerField header 5 ≠ 0 then
        .error (name ++ ": Non-Minix header")
      else if headerField header 3 ≠ 0 then
        .error (name ++ ": Illegal data segment")
      else if headerField header 4 ≠ 0 then
        .error (name ++ ": Illegal bss segment")
      else if headerField header 7 ≠ 0 then
        .error (name ++ ": Illegal symbol table")
      else
        .ok (file.drop minixHeaderLen)

/-- The boot sector with the device numbers set to zero. -/
def bootBlock (files : Files) (name : String) : Except String (List UInt8) := do
  let code ← minixOpen files name
  let buf := code.take bufSize
  if buf.length ≠ 512 then
    .error "Boot block must be exactly 512 bytes"
  else if buf[510]? ≠ some 0x55 ∨ buf[511]? ≠ some 0xaa then
    .error "Boot block hasn't got boot flag (0xAA55)"
  else
    .ok (splice buf 508 [0, 0])

/-- The value of a `u32`. -/
def u32 (value : Nat) : Nat := value % 2 ^ 32

/-- The size of the next piece of a file of which `sz` bytes are left. -/
def pieceSize (sz : Nat) : Nat := if sz > bufSize then bufSize else sz

theorem pieceSize_bounds {sz : Nat} (more : 0 < sz) :
    0 < pieceSize sz ∧ pieceSize sz ≤ sz := by
  have positive : 0 < bufSize := by decide
  unfold pieceSize
  split_ifs <;> omega

/-- The loop that copies `sz` bytes of a file, in pieces of the size of `buf`. -/
def copyLoop (name : String) (fd : List UInt8) (sz : Nat) :
    Except String (List UInt8) :=
  if _more : 0 < sz then
    let buf := fd.take (pieceSize sz)
    if buf.length ≠ pieceSize sz then
      .error (name ++ ": Unexpected EOF")
    else do
      let rest ← copyLoop name (fd.drop (pieceSize sz)) (sz - pieceSize sz)
      .ok (buf ++ rest)
  else
    .ok []
termination_by sz
decreasing_by
  have bounds := pieceSize_bounds _more
  omega

/-- The loop copies the bytes that there are. -/
theorem copyLoop_eq (name : String) (fd : List UInt8) (sz : Nat)
    (enough : sz ≤ fd.length) : copyLoop name fd sz = .ok (fd.take sz) := by
  induction fd, sz using copyLoop.induct with
  | case1 fd sz more buf short =>
      have bounds := pieceSize_bounds more
      refine absurd ?_ short
      rw [List.length_take]
      omega
  | case2 fd sz more buf whole inductionHypothesis =>
      have bounds := pieceSize_bounds more
      rw [copyLoop, dif_pos more]
      dsimp only
      rw [if_neg whole, inductionHypothesis (by rw [List.length_drop]; omega)]
      change Except.ok (fd.take (pieceSize sz) ++ _) = _
      congr 1
      conv_rhs => rw [show sz = pieceSize sz + (sz - pieceSize sz) by omega]
      rw [List.take_add]
  | case3 fd sz done =>
      rw [copyLoop, dif_neg done]
      have none : sz = 0 := by omega
      rw [none, List.take_zero]

/-- What is written of the system or of the user program: its size is kept in a
`u32`. -/
def copyFile (files : Files) (name : String) :
    Except String (Nat × List UInt8) :=
  match files name with
  | none => .error (unableToOpen name)
  | some file => do
      let size := u32 file.length
      let bytes ← copyLoop name file size
      .ok (size, bytes)

/-- `value & 0xff` as a `byte`. -/
def lowByte (value : Nat) : UInt8 := UInt8.ofNat (value &&& 0xff)

/-- The four bytes of a size: the last one is always zero. -/
def sizeBytes (size : Nat) : List UInt8 :=
  [lowByte size, lowByte (size >>> 8), lowByte (size >>> 16), 0]

/-- The two bytes of the number of paragraphs. -/
def paragraphBytes (imSize : Nat) : List UInt8 :=
  [lowByte imSize, lowByte (imSize >>> 8)]

/-- `main` of `build`, without the messages about sizes: the image on standard
output. -/
def build (argv : List String) (files : Files) : Except String (List UInt8) :=
  match argv with
  | [_, bootsect, system, user] => do
      let boot ← bootBlock files bootsect
      let (sysSize, sysBytes) ← copyFile files system
      let (usrSize, usrBytes) ← copyFile files user
      let imSize := u32 (sysSize + usrSize + 15) / 16
      let image := boot ++ sysBytes ++ usrBytes
      let image := splice image 500 (paragraphBytes imSize)
      let image := splice image 512 (sizeBytes sysSize)
      let image := splice image 516 (sizeBytes usrSize)
      .ok (splice image 520 (sizeBytes 0x7E1B))
  | _ => .error "Usage: build bootsect system user [> image]"

/-! ## The fields -/

theorem lowByte_toNat (value : Nat) : (lowByte value).toNat = value % 256 := by
  have masked : value &&& 0xff = value % 256 := Nat.and_two_pow_sub_one_eq_mod value 8
  unfold lowByte
  rw [masked, UInt8.toNat_ofNat']
  omega

/-- The size that a size field holds. -/
theorem leValue_sizeBytes (size : Nat) : leValue (sizeBytes size) = size % 2 ^ 24 := by
  simp only [sizeBytes, leValue, lowByte_toNat, Nat.shiftRight_eq_div_pow,
    UInt8.toNat_zero]
  omega

theorem leValue_paragraphBytes (imSize : Nat) :
    leValue (paragraphBytes imSize) = imSize % 2 ^ 16 := by
  simp only [paragraphBytes, leValue, lowByte_toNat, Nat.shiftRight_eq_div_pow]
  omega

/-! ## What a successful call writes -/

/-- The image of a boot block, a system and a user program of the given sizes. -/
def imageOf (boot system user : List UInt8) (sysSize usrSize : Nat) : List UInt8 :=
  splice (splice (splice (splice (boot ++ system ++ user)
    500 (paragraphBytes (u32 (sysSize + usrSize + 15) / 16)))
    512 (sizeBytes sysSize)) 516 (sizeBytes usrSize)) 520 (sizeBytes 0x7E1B)

section ImageOf

variable {boot system user : List UInt8} {sysSize usrSize : Nat}

/-- Every field begins inside of what is written before it. -/
theorem fields_reached (system user : List UInt8) (sysSize usrSize : Nat)
    (block : boot.length = 512) :
    let plain := boot ++ system ++ user
    let sized := splice plain 500 (paragraphBytes (u32 (sysSize + usrSize + 15) / 16))
    500 ≤ plain.length ∧ 512 ≤ sized.length ∧
      516 ≤ (splice sized 512 (sizeBytes sysSize)).length ∧
      520 ≤ (splice (splice sized 512 (sizeBytes sysSize)) 516
        (sizeBytes usrSize)).length := by
  intro plain sized
  have whole : 512 ≤ plain.length := by
    simp only [plain, List.length_append]
    omega
  have first : 512 ≤ sized.length := by
    rw [length_splice]
    · exact whole
    · exact Nat.le_trans (by decide : 502 ≤ 512) whole
  have second : 512 + 4 ≤ (splice sized 512 (sizeBytes sysSize)).length :=
    le_length_splice (sizeBytes sysSize) first
  have third : 516 + 4 ≤ (splice (splice sized 512 (sizeBytes sysSize)) 516
      (sizeBytes usrSize)).length :=
    le_length_splice (sizeBytes usrSize) second
  exact ⟨by omega, first, second, third⟩

theorem imageOf_paragraphs (block : boot.length = 512) :
    fieldAt (imageOf boot system user sysSize usrSize) 500 2 =
      u32 (sysSize + usrSize + 15) / 16 % 2 ^ 16 := by
  obtain ⟨atSize, atSystem, atUser, atRdtr⟩ :=
    fields_reached system user sysSize usrSize block
  rw [imageOf, fieldAt_splice_of_disjoint atRdtr (Or.inl (by decide)),
    fieldAt_splice_of_disjoint atUser (Or.inl (by decide)),
    fieldAt_splice_of_disjoint atSystem (Or.inl (by decide)),
    ← leValue_paragraphBytes]
  exact fieldAt_splice_self atSize

theorem imageOf_sysSize (block : boot.length = 512) :
    fieldAt (imageOf boot system user sysSize usrSize) 512 4 = sysSize % 2 ^ 24 := by
  obtain ⟨-, atSystem, atUser, atRdtr⟩ :=
    fields_reached system user sysSize usrSize block
  rw [imageOf, fieldAt_splice_of_disjoint atRdtr (Or.inl (by decide)),
    fieldAt_splice_of_disjoint atUser (Or.inl (by decide)), ← leValue_sizeBytes]
  exact fieldAt_splice_self atSystem

theorem imageOf_usrSize (block : boot.length = 512) :
    fieldAt (imageOf boot system user sysSize usrSize) 516 4 = usrSize % 2 ^ 24 := by
  obtain ⟨-, -, atUser, atRdtr⟩ :=
    fields_reached system user sysSize usrSize block
  rw [imageOf, fieldAt_splice_of_disjoint atRdtr (Or.inl (by decide)),
    ← leValue_sizeBytes]
  exact fieldAt_splice_self atUser

/-- Behind the fields, the image is what the files hold. -/
theorem imageOf_behind (block : boot.length = 512) {i : Nat} (behind : 524 ≤ i) :
    (imageOf boot system user sysSize usrSize)[i]? = (system ++ user)[i - 512]? := by
  obtain ⟨atSize, atSystem, atUser, atRdtr⟩ :=
    fields_reached system user sysSize usrSize block
  have two : (paragraphBytes (u32 (sysSize + usrSize + 15) / 16)).length = 2 := rfl
  have four : ∀ size, (sizeBytes size).length = 4 := fun _ => rfl
  rw [imageOf, getElem?_splice atRdtr, if_neg (by rw [four]; omega),
    getElem?_splice atUser, if_neg (by rw [four]; omega),
    getElem?_splice atSystem, if_neg (by rw [four]; omega),
    getElem?_splice atSize, if_neg (by rw [two]; omega), List.append_assoc,
    List.getElem?_append_right (by omega), block]

theorem length_imageOf (block : boot.length = 512) (room : 12 ≤ system.length) :
    (imageOf boot system user sysSize usrSize).length =
      512 + system.length + user.length := by
  have whole : (boot ++ system ++ user).length = 512 + system.length + user.length := by
    rw [List.length_append, List.length_append, block]
  have two : (paragraphBytes (u32 (sysSize + usrSize + 15) / 16)).length = 2 := rfl
  have four : ∀ size, (sizeBytes size).length = 4 := fun _ => rfl
  have afterSize : (splice (boot ++ system ++ user) 500
      (paragraphBytes (u32 (sysSize + usrSize + 15) / 16))).length =
        512 + system.length + user.length := by
    rw [length_splice (by rw [two, whole]; omega), whole]
  have afterSystem : (splice (splice (boot ++ system ++ user) 500
      (paragraphBytes (u32 (sysSize + usrSize + 15) / 16))) 512
        (sizeBytes sysSize)).length = 512 + system.length + user.length := by
    rw [length_splice (by rw [four, afterSize]; omega), afterSize]
  have afterUser : (splice (splice (splice (boot ++ system ++ user) 500
      (paragraphBytes (u32 (sysSize + usrSize + 15) / 16))) 512
        (sizeBytes sysSize)) 516 (sizeBytes usrSize)).length =
          512 + system.length + user.length := by
    rw [length_splice (by rw [four, afterSystem]; omega), afterSystem]
  rw [imageOf, length_splice (by rw [four, afterUser]; omega), afterUser]

end ImageOf

variable {files : Files} {image : List UInt8}

theorem copyFile_eq {name : String} {file : List UInt8} (isFile : files name = some file) :
    copyFile files name =
      .ok (u32 file.length, file.take (u32 file.length)) := by
  have enough : u32 file.length ≤ file.length := Nat.mod_le _ _
  rw [copyFile, isFile]
  dsimp only
  rw [copyLoop_eq name file _ enough]
  rfl

theorem bootBlock_length {name : String} {boot : List UInt8}
    (read : bootBlock files name = .ok boot) : boot.length = 512 := by
  unfold bootBlock at read
  cases code : minixOpen files name with
  | error message =>
      rw [code] at read
      nomatch read
  | ok bytes =>
      rw [code] at read
      change (if (bytes.take bufSize).length ≠ 512 then
          Except.error "Boot block must be exactly 512 bytes"
        else if (bytes.take bufSize)[510]? ≠ some 0x55 ∨
            (bytes.take bufSize)[511]? ≠ some 0xaa then
          Except.error "Boot block hasn't got boot flag (0xAA55)"
        else .ok (splice (bytes.take bufSize) 508 [0, 0])) = Except.ok boot at read
      split_ifs at read with size flag
      have block : (bytes.take bufSize).length = 512 := Classical.not_not.mp size
      rw [← Except.ok.inj read, length_splice, block]
      rw [block]
      decide

/-- A successful call copies both files, as much of them as a `u32` counts. -/
theorem build_ok {program bootsect system user : String} {systemFile userFile : List UInt8}
    (hasSystem : files system = some systemFile) (hasUser : files user = some userFile)
    (built : build [program, bootsect, system, user] files = .ok image) :
    ∃ boot : List UInt8, boot.length = 512 ∧
      image = imageOf boot (systemFile.take (u32 systemFile.length))
        (userFile.take (u32 userFile.length)) (u32 systemFile.length)
        (u32 userFile.length) := by
  cases read : bootBlock files bootsect with
  | error message =>
      simp only [build, read] at built
      nomatch built
  | ok boot =>
      simp only [build, read, copyFile_eq hasSystem, copyFile_eq hasUser] at built
      exact ⟨boot, bootBlock_length read, (Except.ok.inj built).symm⟩

end Zeos.Loading
