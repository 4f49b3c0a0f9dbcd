import Zeos.Loading.Bootsect
import Zeos.Loading.Build
import Zeos.Space.Boot
import Zeos.Utils

/-!
# From the files to the user program in place

`build` writes the image, `read_it` loads it, and `main` moves the user program
behind the system to `usr_main`, through the page table of the first process.
The sizes go from one to the next in fields of 16 and 24 bits.
-/

namespace Zeos.Loading

open Library StateTransition

/-! ## The copy in `main` -/

/-- `KERNEL_START`, the place of `*p_sys_size`. -/
def kernelStart : UInt32 := 0x10000

/-- The place of `*p_usr_size`. -/
def pUsrSize : UInt32 := kernelStart + 4

/-- `PH_USER_START`. -/
def usrMain : UInt32 := 0x100000

/-- The frame and the offset that an address stands for. -/
def linear (mm : Memory) (dir : DirId) (address : UInt32) : Option (Nat × Nat) :=
  (mm.translate dir (address.toNat / pageSize)).map fun frame =>
    (frame, address.toNat % pageSize)

/-- Memory by frames. -/
def framed (memory : Nat → UInt8) (place : Nat × Nat) : UInt8 :=
  memory (pageSize * place.1 + place.2)

/-- `copy_data((void *) KERNEL_START + *p_sys_size, usr_main, *p_usr_size)`. -/
def copyUser (locate : UInt32 → Option (Nat × Nat)) (ram : Nat × Nat → UInt8) :
    Option (Nat × Nat → UInt8) :=
  (loadBytes locate 4 kernelStart ram).bind fun sysSize =>
    (loadBytes locate 4 pUsrSize ram).bind fun usrSize =>
      copyData locate (kernelStart + UInt32.ofNat (leValue sysSize)) usrMain
        (int32 (leValue usrSize)) ram

/-- The addresses after `init_task1`. -/
def bootLinear (kernel : BootImage) : UInt32 → Option (Nat × Nat) :=
  linear (boot kernel).mm (boot kernel).cr3

variable {kernel : BootImage} {address : UInt32}

theorem bootLinear_eq (kernel : BootImage) (address : UInt32) :
    bootLinear kernel address =
      if address.toNat / 4096 < 1024 ∧
          (Memory.userTable kernel.taskPage (address.toNat / 4096)).present then
        some ((Memory.userTable kernel.taskPage (address.toNat / 4096)).pbaseAddr,
          address.toNat % 4096)
      else
        none := by
  have dir : (boot kernel).cr3 = 1 := rfl
  have table : (boot kernel).mm.pagusrTable 1 = Memory.userTable kernel.taskPage := by
    funext page
    rw [Kernel.boot_table, if_pos rfl]
  unfold bootLinear linear Memory.translate Memory.getFrame
  rw [dir, table]
  by_cases mapped : address.toNat / pageSize < totalPages ∧
      (Memory.userTable kernel.taskPage (address.toNat / pageSize)).present
  · rw [if_pos mapped, Option.map_some]
    exact (if_pos mapped).symm
  · rw [if_neg mapped, Option.map_none]
    exact (if_neg mapped).symm

/-- The kernel's pages are mapped to themselves. -/
theorem bootLinear_kernel (low : address.toNat < 0x100000) :
    bootLinear kernel address =
      if 1 ≤ address.toNat / 4096 ∧ address.toNat / 4096 ≠ kernel.taskPage ∧
          address.toNat / 4096 ≠ kernel.taskPage + 11 then
        some (address.toNat / 4096, address.toNat % 4096)
      else
        none := by
  have page : address.toNat / 4096 < 256 := by omega
  have notUser : ¬(pagLogInitCode ≤ address.toNat / 4096 ∧
      address.toNat / 4096 < heapInitPage) := by
    simp only [pagLogInitCode]
    omega
  rw [bootLinear_eq]
  by_cases first : 1 ≤ address.toNat / 4096
  · have entry : Memory.userTable kernel.taskPage (address.toNat / 4096) =
        { present := decide (address.toNat / 4096 ≠ kernel.taskPage ∧
            address.toNat / 4096 ≠ kernel.taskPage + 11)
          rw := true
          pbaseAddr := address.toNat / 4096 } := by
      rw [Memory.userTable, if_neg notUser, Memory.initTablePages, if_pos ⟨first, page⟩]
    rw [entry]
    simp only [decide_eq_true_eq]
    congr 1
    apply propext
    exact ⟨fun present => ⟨first, present.2⟩, fun present => ⟨by omega, present.2⟩⟩
  · have entry : Memory.userTable kernel.taskPage (address.toNat / 4096) = {} := by
      rw [Memory.userTable, if_neg notUser, Memory.initTablePages,
        if_neg fun both => first both.1]
    rw [entry, if_neg (by simp), if_neg fun both => first both.1]

/-- The pages of the first process have every other frame. -/
theorem bootLinear_user (high : 0x100000 ≤ address.toNat) :
    bootLinear kernel address =
      if address.toNat < 0x100000 + 28 * 4096 then
        some (256 + 2 * (address.toNat / 4096 - 256), address.toNat % 4096)
      else
        none := by
  have page : 256 ≤ address.toNat / 4096 := by omega
  rw [bootLinear_eq]
  by_cases inside : address.toNat / 4096 < 284
  · have entry : Memory.userTable kernel.taskPage (address.toNat / 4096) =
        { present := true
          rw := decide (pagLogInitData ≤ address.toNat / 4096)
          user := true
          pbaseAddr := 256 + 2 * (address.toNat / 4096 - 256) } := by
      rw [Memory.userTable, if_pos ⟨page, inside⟩]
      rfl
    rw [entry, if_pos ⟨by omega, rfl⟩, if_pos (by omega)]
  · have entry : Memory.userTable kernel.taskPage (address.toNat / 4096) = {} := by
      rw [Memory.userTable, if_neg fun both => inside both.2, Memory.initTablePages,
        if_neg fun both => absurd both.2 (Nat.not_lt.mpr page)]
    rw [entry, if_neg (by simp), if_neg (by omega)]

/-! ## Round trips -/

/-- The user program is at `usrMain`, and everything else is as before. -/
structure UserInPlace (kernel : BootImage) (user : List UInt8)
    (before after : Nat × Nat → UInt8) : Prop where
  there : ∀ i byte, user[i]? = some byte →
    load (bootLinear kernel) (usrMain + UInt32.ofNat i) after = some byte
  beside : ∀ place, (∀ i < user.length,
    bootLinear kernel (usrMain + UInt32.ofNat i) ≠ some place) → after place = before place

/-- The kernel has not written to the sizes nor to the user program before it
moves it. -/
def Undisturbed (sysSize usrSize : Nat) (loaded ram : Nat → UInt8) : Prop :=
  ∀ i, i < 8 ∨ (sysSize ≤ i ∧ i < sysSize + usrSize) → ram (0x10000 + i) = loaded (0x10000 + i)

/-- Booting from an image of a system and a user program brings both where they
belong. -/
structure RoundTrips (image system user : List UInt8) (kernel : BootImage)
    (floppy memory : Nat → UInt8) : Prop where
  paragraphs : fieldAt image 500 2 = (system.length + user.length + 15) / 16
  sysSize : fieldAt image 512 4 = system.length
  usrSize : fieldAt image 516 4 = user.length
  below : Loader.LoadsBelow floppy (fieldAt image 500 2) memory
  places : ∃ last ∈ eval (Loader.rpRead floppy (fieldAt image 500 2)) (Loader.start memory),
    (∀ i byte, image[512 + i]? = some byte → last.memory (0x10000 + i) = byte) ∧
      ∀ ram, Undisturbed system.length user.length last.memory ram →
        ∃ after, copyUser (bootLinear kernel) (framed ram) = some after ∧
          UserInPlace kernel user (framed ram) after

/-- The sizes that the three programs can handle together. -/
structure Fits (sysSize usrSize : Nat) (kernel : BootImage) : Prop where
  segments : sysSize + usrSize ≤ 0x7FFF0
  pages : usrSize ≤ (numPagCode + numPagData) * pageSize
  sizes : kernel.taskPage ≠ 16 ∧ kernel.taskPage + 11 ≠ 16
  guards : ∀ i < usrSize, (0x10000 + sysSize + i) / pageSize ≠ kernel.taskPage ∧
    (0x10000 + sysSize + i) / pageSize ≠ kernel.taskPage + 11

/-- `system.lds` puts the task array behind the code, inside of the system. -/
theorem Fits.of_linked {sysSize usrSize : Nat} (segments : sysSize + usrSize ≤ 0x7FFF0)
    (pages : usrSize ≤ (numPagCode + numPagData) * pageSize)
    (behind : 16 < kernel.taskPage)
    (inside : (kernel.taskPage + 12) * pageSize ≤ 0x10000 + sysSize) :
    Fits sysSize usrSize kernel where
  segments := segments
  pages := pages
  sizes := by omega
  guards i few := by
    simp only [pageSize] at inside ⊢
    omega

section Image

variable {boot system user : List UInt8}

/-- The image of two files. -/
def fileImage (boot system user : List UInt8) : List UInt8 :=
  imageOf boot (system.take (u32 system.length)) (user.take (u32 user.length))
    (u32 system.length) (u32 user.length)

/-- The three fields decode exactly if the number of paragraphs has 16 bits. -/
theorem fields_decode (user : List UInt8) (block : boot.length = 512) :
    (fieldAt (fileImage boot system user) 500 2 = (system.length + user.length + 15) / 16 ∧
      fieldAt (fileImage boot system user) 512 4 = system.length ∧
      fieldAt (fileImage boot system user) 516 4 = user.length) ↔
        system.length + user.length + 15 < 2 ^ 20 := by
  unfold fileImage
  rw [imageOf_paragraphs block, imageOf_sysSize block, imageOf_usrSize block]
  unfold u32
  omega

theorem fileImage_eq (small : system.length + user.length + 15 < 2 ^ 20) :
    fileImage boot system user = imageOf boot system user system.length user.length := by
  have sysSize : u32 system.length = system.length := Nat.mod_eq_of_lt (by omega)
  have usrSize : u32 user.length = user.length := Nat.mod_eq_of_lt (by omega)
  rw [fileImage, sysSize, usrSize, List.take_length, List.take_length]

end Image

/-! ## The addresses of the copy -/

theorem load_kernel {memory : Nat → UInt8} (low : address.toNat < 0x100000)
    (mapped : (bootLinear kernel address).isSome) :
    load (bootLinear kernel) address (framed memory) = some (memory address.toNat) := by
  have whole : 4096 * (address.toNat / 4096) + address.toNat % 4096 = address.toNat := by
    omega
  unfold load
  rw [bootLinear_kernel low] at mapped ⊢
  split_ifs at mapped ⊢ with known
  · rw [Option.map_some, framed]
    simp only [pageSize]
    rw [whole]
  · nomatch mapped

theorem toNat_kernelStart (k : Nat) (small : k < 2 ^ 24) :
    (kernelStart + UInt32.ofNat k).toNat = 0x10000 + k := by
  have base : kernelStart.toNat = 0x10000 := rfl
  rw [toNat_add_ofNat (by omega), base]

theorem toNat_usrMain (k : Nat) (small : k < 2 ^ 24) :
    (usrMain + UInt32.ofNat k).toNat = 0x100000 + k := by
  have base : usrMain.toNat = 0x100000 := rfl
  rw [toNat_add_ofNat (by omega), base]

theorem toNat_source (size k : Nat) (small : size + k < 2 ^ 24) :
    (kernelStart + UInt32.ofNat size + UInt32.ofNat k).toNat = 0x10000 + (size + k) := by
  rw [add_ofNat_add]
  exact toNat_kernelStart _ small

theorem mapped_source {sysSize usrSize : Nat} (small : sysSize + usrSize ≤ 0x7FFF0) :
    Mapped (bootLinear kernel) (kernelStart + UInt32.ofNat sysSize) usrSize ↔
      ∀ i < usrSize, (0x10000 + sysSize + i) / pageSize ≠ kernel.taskPage ∧
        (0x10000 + sysSize + i) / pageSize ≠ kernel.taskPage + 11 := by
  unfold Mapped
  refine forall_congr' fun i => forall_congr' fun few => ?_
  have value := toNat_source sysSize i (by omega)
  rw [bootLinear_kernel (by omega), value, Nat.add_assoc]
  simp only [pageSize]
  split_ifs with mapped
  · exact iff_of_true rfl mapped.2
  · refine iff_of_false (by simp) fun guards => mapped ⟨by omega, guards⟩

theorem mapped_dest (kernel : BootImage) {usrSize : Nat} (small : usrSize < 2 ^ 24) :
    Mapped (bootLinear kernel) usrMain usrSize ↔
      usrSize ≤ (numPagCode + numPagData) * pageSize := by
  simp only [numPagCode, numPagData, pageSize]
  constructor
  · intro mapped
    by_contra large
    have last := mapped (28 * 4096) (by omega)
    have value : (usrMain + UInt32.ofNat (28 * 4096)).toNat = 0x100000 + 28 * 4096 :=
      toNat_usrMain _ (by decide)
    rw [bootLinear_user (by rw [value]; decide), value, if_neg (by decide)] at last
    nomatch last
  · intro few i inside
    have value := toNat_usrMain i (by omega)
    rw [bootLinear_user (by omega), value, if_pos (by omega)]
    rfl

theorem bootLinear_dest {i : Nat} (inside : i < 28 * 4096) :
    bootLinear kernel (usrMain + UInt32.ofNat i) =
      some (256 + 2 * (i / 4096), i % 4096) := by
  have value := toNat_usrMain i (by omega)
  rw [bootLinear_user (by omega), value, if_pos (by omega)]
  have frame : (0x100000 + i) / 4096 - 256 = i / 4096 := by omega
  have offset : (0x100000 + i) % 4096 = i % 4096 := by omega
  rw [frame, offset]

theorem apart_copy (kernel : BootImage) {sysSize usrSize : Nat} (small : sysSize + usrSize ≤ 0x7FFF0)
    (pages : usrSize ≤ 28 * 4096) :
    Apart (bootLinear kernel) (kernelStart + UInt32.ofNat sysSize) usrMain usrSize where
  distinct i iInside j jInside different := by
    rw [bootLinear_dest (by omega), bootLinear_dest (by omega)]
    intro same
    obtain ⟨frame, offset⟩ := Prod.mk.inj (Option.some.inj same)
    omega
  disjoint i iInside j jInside := by
    have value := toNat_source sysSize i (by omega)
    rw [bootLinear_kernel (by omega), bootLinear_dest (by omega), value]
    split_ifs with mapped
    · intro same
      obtain ⟨frame, -⟩ := Prod.mk.inj (Option.some.inj same)
      omega
    · exact fun same => nomatch same

/-! ## What the kernel reads -/

section Booted

variable {image system user : List UInt8} {floppy : Nat → UInt8} {last : Loader}

/-- The sizes that the kernel reads are the fields of the image. -/
theorem loadBytes_size {ram : Nat → UInt8} {place : Nat} (early : place + 4 ≤ 8)
    (room : 520 ≤ image.length) {bytes : List UInt8}
    (there : ∀ i byte, i < 8 → image[512 + i]? = some byte → ram (0x10000 + i) = byte)
    (read : loadBytes (bootLinear kernel) 4 (kernelStart + UInt32.ofNat place)
      (framed ram) = some bytes) :
    leValue bytes = fieldAt image (512 + place) 4 := by
  have mapped := (loadBytes_isSome (framed ram)).mp (Option.isSome_iff_exists.mpr ⟨_, read⟩)
  have four : ((image.drop (512 + place)).take 4).length = 4 := by
    rw [List.length_take, List.length_drop]
    omega
  have loaded : loadBytes (bootLinear kernel) ((image.drop (512 + place)).take 4).length
      (kernelStart + UInt32.ofNat place) (framed ram) =
        some ((image.drop (512 + place)).take 4) := by
    apply loadBytes_of_load
    intro k byte found
    have few : k < 4 := by
      obtain ⟨inside, -⟩ := List.getElem?_eq_some_iff.mp found
      omega
    have value := toNat_source place k (by omega)
    rw [load_kernel (by omega) (mapped k few), value]
    rw [List.getElem?_take_of_lt few, List.getElem?_drop, Nat.add_assoc] at found
    rw [there (place + k) byte (by omega) found]
  rw [four, read] at loaded
  rw [Option.some.inj loaded, fieldAt]

/-- The call of `copy_data` that `main` makes. -/
theorem copyUser_eq {boot : List UInt8} {ram : Nat → UInt8} (block : boot.length = 512)
    (twelve : 12 ≤ system.length) (small : system.length + user.length + 15 < 2 ^ 20)
    (there : ∀ i byte, i < 8 → (fileImage boot system user)[512 + i]? = some byte →
      ram (0x10000 + i) = byte)
    (sizes : kernel.taskPage ≠ 16 ∧ kernel.taskPage + 11 ≠ 16) :
    copyUser (bootLinear kernel) (framed ram) =
      copyData (bootLinear kernel) (kernelStart + UInt32.ofNat system.length) usrMain
        user.length (framed ram) := by
  obtain ⟨-, sysSize, usrSize⟩ := (fields_decode user block).mpr small
  have room : 520 ≤ (fileImage boot system user).length := by
    rw [fileImage_eq small, length_imageOf block twelve]
    omega
  have mapped : ∀ place, place + 4 ≤ 8 →
      Mapped (bootLinear kernel) (kernelStart + UInt32.ofNat place) 4 := by
    intro place early k few
    have value := toNat_source place k (by omega)
    rw [bootLinear_kernel (by omega), value, if_pos (by omega)]
    rfl
  obtain ⟨sysBytes, readSys⟩ := Option.isSome_iff_exists.mp
    ((loadBytes_isSome (framed ram)).mpr (mapped 0 (by decide)))
  obtain ⟨usrBytes, readUsr⟩ := Option.isSome_iff_exists.mp
    ((loadBytes_isSome (framed ram)).mpr (mapped 4 (by decide)))
  have sysValue := loadBytes_size (by decide) room there readSys
  have usrValue := loadBytes_size (by decide) room there readUsr
  rw [sysSize] at sysValue
  rw [usrSize] at usrValue
  change loadBytes (bootLinear kernel) 4 kernelStart (framed ram) = _ at readSys
  change loadBytes (bootLinear kernel) 4 pUsrSize (framed ram) = _ at readUsr
  rw [copyUser, readSys, Option.bind_some, readUsr, Option.bind_some, sysValue, usrValue,
    int32_of_range (by omega) (by omega)]

/-- The page of the sizes is read before the copy. -/
theorem sizes_mapped {ram : Nat → UInt8}
    (ended : (copyUser (bootLinear kernel) (framed ram)).isSome) :
    kernel.taskPage ≠ 16 ∧ kernel.taskPage + 11 ≠ 16 := by
  obtain ⟨after, copied⟩ := Option.isSome_iff_exists.mp ended
  obtain ⟨sysBytes, read, -⟩ := Option.bind_eq_some_iff.mp copied
  have mapped := (loadBytes_isSome (framed ram)).mp (Option.isSome_iff_exists.mpr ⟨_, read⟩)
    0 (by decide)
  have value := toNat_kernelStart 0 (by decide)
  rw [bootLinear_kernel (by omega), value] at mapped
  split_ifs at mapped with present
  · omega
  · nomatch mapped

end Booted

section Equivalence

variable {boot system user : List UInt8} {floppy memory : Nat → UInt8}

/-- What a round trip takes. -/
theorem fits_of_roundTrips (block : boot.length = 512) (twelve : 12 ≤ system.length)
    (trips : RoundTrips (fileImage boot system user) system user kernel floppy memory) :
    Fits system.length user.length kernel := by
  have small := (fields_decode user block).mp ⟨trips.paragraphs, trips.sysSize, trips.usrSize⟩
  have below := (Loader.loadsBelow_iff floppy memory).mp trips.below
  rw [trips.paragraphs] at below
  obtain ⟨last, -, there, moved⟩ := trips.places
  obtain ⟨after, copied, -⟩ := moved last.memory fun _ _ => rfl
  have ended := Option.isSome_iff_exists.mpr ⟨_, copied⟩
  have sizes := sizes_mapped ended
  rw [copyUser_eq block twelve small (fun i byte _ => there i byte) sizes] at ended
  obtain ⟨readable, writable⟩ := copyData_mapped ended
  rw [Int.toNat_natCast] at readable writable
  exact {
    segments := by omega
    pages := (mapped_dest kernel (by omega)).mp writable
    sizes := sizes
    guards := (mapped_source (by omega)).mp readable }

/-- If everything fits, then booting is a round trip. -/
theorem roundTrips_of_fits (block : boot.length = 512) (twelve : 12 ≤ system.length)
    (inserted : ∀ i byte, (fileImage boot system user)[i]? = some byte → floppy i = byte)
    (fits : Fits system.length user.length kernel) :
    RoundTrips (fileImage boot system user) system user kernel floppy memory := by
  have segments := fits.segments
  have small : system.length + user.length + 15 < 2 ^ 20 := by omega
  obtain ⟨paragraphs, sysSize, usrSize⟩ := (fields_decode user block).mpr small
  have few : fieldAt (fileImage boot system user) 500 2 < 0x8000 := by
    rw [paragraphs]
    omega
  obtain ⟨last, ended, loaded⟩ := Loader.eval_loaded floppy memory few
  have there : ∀ i byte, (fileImage boot system user)[512 + i]? = some byte →
      last.memory (0x10000 + i) = byte := by
    intro i byte found
    obtain ⟨inside, -⟩ := List.getElem?_eq_some_iff.mp found
    rw [fileImage_eq small, length_imageOf block twelve] at inside
    rw [paragraphs] at loaded
    rw [loaded.memory i (by omega)]
    exact inserted _ byte found
  refine ⟨paragraphs, sysSize, usrSize, (Loader.loadsBelow_iff floppy memory).mpr few,
    last, ended, there, ?_⟩
  intro ram undisturbed
  have sizesThere : ∀ i byte, i < 8 → (fileImage boot system user)[512 + i]? = some byte →
      ram (0x10000 + i) = byte := by
    intro i byte early found
    rw [undisturbed i (Or.inl early)]
    exact there i byte found
  have pages : user.length ≤ 28 * 4096 := fits.pages
  have readable := (mapped_source segments).mpr fits.guards
  have writable := (mapped_dest kernel (by omega)).mpr fits.pages
  have apart := apart_copy kernel segments pages
  rw [← Int.toNat_natCast user.length] at apart readable writable
  obtain ⟨after, copied, moved⟩ := copyData_copied apart readable writable (framed ram)
  rw [Int.toNat_natCast] at moved readable
  rw [copyUser_eq block twelve small sizesThere fits.sizes]
  refine ⟨after, copied, ?_, moved.beside⟩
  intro i byte found
  obtain ⟨inside, -⟩ := List.getElem?_eq_some_iff.mp found
  have value := toNat_source system.length i (by omega)
  have behind : (system ++ user)[system.length + i]? = some byte := by
    rw [List.getElem?_append_right (Nat.le_add_right _ _), Nat.add_sub_cancel_left]
    exact found
  have inImage : (fileImage boot system user)[512 + (system.length + i)]? = some byte := by
    rw [fileImage_eq small, imageOf_behind block (by omega), Nat.add_sub_cancel_left]
    exact behind
  rw [moved.copied i inside, load_kernel (by omega) (readable i inside), value,
    undisturbed _ (Or.inr (by omega)), there _ byte inImage]

end Equivalence

/-- The image that `build` wrote, on a floppy and booted, is a round trip exactly
if the sizes fit. -/
theorem image_round_trips {files : Files} {program bootsect system user : String}
    {image systemFile userFile : List UInt8} (hasSystem : files system = some systemFile)
    (hasUser : files user = some userFile)
    (built : build [program, bootsect, system, user] files = .ok image)
    (twelve : 12 ≤ systemFile.length) (kernel : BootImage) {floppy : Nat → UInt8}
    (inserted : ∀ i byte, image[i]? = some byte → floppy i = byte)
    (memory : Nat → UInt8) :
    RoundTrips image systemFile userFile kernel floppy memory ↔
      Fits systemFile.length userFile.length kernel := by
  obtain ⟨boot, block, rfl⟩ := build_ok hasSystem hasUser built
  constructor
  · exact fits_of_roundTrips block twelve
  · exact roundTrips_of_fits block twelve inserted

/-- A boot sector of zeros, with its flag. -/
def zeroBlock : List UInt8 := List.replicate 510 0 ++ [0x55, 0xaa]

/-- Three files, the first with the header of `ld86`. -/
def threeFiles (system user : List UInt8) : Files
  | "bootsect" => some (minixHdr ++ List.replicate 24 0 ++ zeroBlock)
  | "system" => some system
  | "user" => some user
  | _ => none

/-- The floppy that an image was written to. -/
def floppyOf (image : List UInt8) (i : Nat) : UInt8 := image.getD i 0

theorem floppyOf_inserted (image : List UInt8) (i : Nat) (byte : UInt8)
    (found : image[i]? = some byte) : floppyOf image i = byte := by
  rw [floppyOf, List.getD_eq_getElem?_getD, found, Option.getD_some]

theorem threeFiles_built (system user : List UInt8) :
    build ["build", "bootsect", "system", "user"] (threeFiles system user) =
      .ok (fileImage zeroBlock system user) := by
  have opened : minixOpen (threeFiles system user) "bootsect" =
      minixOpen (threeFiles [] []) "bootsect" := by
    unfold minixOpen threeFiles
    rfl
  have header : minixOpen (threeFiles [] []) "bootsect" = .ok zeroBlock := by
    decide +kernel
  have block : bootBlock (threeFiles system user) "bootsect" = .ok zeroBlock := by
    rw [bootBlock, opened, header]
    decide +kernel
  have hasSystem : threeFiles system user "system" = some system := rfl
  have hasUser : threeFiles system user "user" = some user := rfl
  simp only [build, block, copyFile_eq hasSystem, copyFile_eq hasUser]
  rfl

/-- A system of sixteen bytes with a user program of three. -/
theorem image_round_trips_small :
    ∃ image, build ["build", "bootsect", "system", "user"]
        (threeFiles (List.replicate 16 0) [1, 2, 3]) = .ok image ∧
      RoundTrips image (List.replicate 16 0) [1, 2, 3] sampleImage (floppyOf image)
        fun _ => 0 := by
  have built := threeFiles_built (List.replicate 16 0) [1, 2, 3]
  refine ⟨_, built, (image_round_trips rfl rfl built (by decide) sampleImage
    (floppyOf_inserted _) _).mpr ?_⟩
  exact {
    segments := by decide
    pages := by decide
    sizes := by decide
    guards := by decide }

/-- With one byte more than the eight segments below the loader hold, the loader
reads over itself. -/
theorem large_image_overwrites :
    ∃ image, build ["build", "bootsect", "system", "user"]
        (threeFiles (List.replicate 0x7FFF0 0) [1]) = .ok image ∧
      ¬RoundTrips image (List.replicate 0x7FFF0 0) [1] sampleImage (floppyOf image)
        fun _ => 0 := by
  refine ⟨_, threeFiles_built (List.replicate 0x7FFF0 0) [1], fun trips => ?_⟩
  have block : zeroBlock.length = 512 := by decide +kernel
  have length : (List.replicate 0x7FFF0 (0 : UInt8)).length = 0x7FFF0 := List.length_replicate
  have fits := fits_of_roundTrips block (by rw [length]; decide) trips
  have segments := fits.segments
  rw [length, List.length_singleton] at segments
  omega

end Zeos.Loading
