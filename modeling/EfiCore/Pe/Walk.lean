import EfiCore.Pe.Fixup

/-! # The relocation walk

The loops of `LoadPeRelocate` and `ConvertPeImage` over the blocks of a relocation directory, one
turn of a loop a step.  The length of a block is read from memory, which the fixups write as well.
-/

namespace EfiCore.Pe

open EfiCore.Lib

/-- What the passes use of a `LOADED_IMAGE`. The image ends short of the end of the address space. -/
structure Image (A : Arch) where
  imageBase : Nat
  imageEof : Nat
  imageAdjust : Nat
  ordered : imageBase ≤ imageEof
  below : imageEof + 8 ≤ 2 ^ A.bits

/-- `ImageAddress`; 0 is `NULL`. -/
def Image.imageAddress {A : Arch} (image : Image A) (address : Nat) : Nat :=
  let p := A.add image.imageAdjust address
  if p < image.imageBase ∨ image.imageEof < p then 0 else p

inductive Pass where
  | loadPeRelocate
  | convertPeImage
  deriving DecidableEq, Repr

def Pass.fixup (A : Arch) (type fixup : Nat) (adjust : BitVec 64) (s : Fixed) :
    Pass → Option Fixed
  | .loadPeRelocate => loadFixup A type fixup adjust s
  | .convertPeImage => convertFixup A type fixup adjust s

/-- What the results are told apart by; `ConvertPeImage` has none. -/
inductive Outcome where
  | success
  | loadError
  | unsupported
  deriving DecidableEq, Repr

/-- Which loop runs. -/
inductive Cursor where
  /-- The outer loop, at a block. -/
  | block (relocBase : Nat)
  /-- The inner loop, at an entry of a block. -/
  | entry (reloc relocEnd fixupBase : Nat)
  | done (status : Outcome)
  deriving DecidableEq, Repr

structure Walk where
  cursor : Cursor
  memory : Memory
  fixupData : Nat
  /-- The variable `Status`. -/
  status : Outcome
  /-- The addresses of the entries that were processed, the last first. -/
  processed : List Nat

variable {A : Arch} (image : Image A) (pass : Pass) (adjust : BitVec 64) (dirEnd : Nat)

/-- `RelocBase->VirtualAddress` -/
def virtualAddress (m : Memory) (relocBase : Nat) : Nat := numAt m relocBase 4

/-- `RelocBase->SizeOfBlock` -/
def sizeOfBlock (m : Memory) (relocBase : Nat) : Nat := numAt m (relocBase + 4) 4

/-- `RelocEnd` -/
def relocEnd (A : Arch) (m : Memory) (relocBase : Nat) : Nat :=
  A.add relocBase (sizeOfBlock m relocBase)

/-- `LoadPeRelocate` gives up at a block that ends outside of the image; `ConvertPeImage` asserts that
there is none. -/
def Pass.rejects : Pass → Nat → Bool
  | .loadPeRelocate, relocEnd => relocEnd < image.imageBase || image.imageEof < relocEnd
  | .convertPeImage, _ => false

/-- The head of a block. -/
def enter (relocBase : Nat) (w : Walk) : Walk :=
  let relocEnd := relocEnd A w.memory relocBase
  let fixupBase := image.imageAddress (virtualAddress w.memory relocBase)
  if pass.rejects image relocEnd then { w with cursor := .done w.status }
  else { w with cursor := .entry (A.add relocBase 8) relocEnd fixupBase }

/-- An entry. -/
def process (reloc relocEnd fixupBase : Nat) (w : Walk) : Walk :=
  let value := numAt w.memory reloc 2
  let type := value / 2 ^ 12
  let processed := reloc :: w.processed
  match pass.fixup A type (A.add fixupBase (value % 2 ^ 12)) adjust ⟨w.memory, w.fixupData⟩ with
  | some s =>
    { cursor := .entry (A.add reloc 2) relocEnd fixupBase
      memory := s.memory
      fixupData := s.fixupData
      -- the extension for a processor returns a status of its own
      status := if type ≤ imageRelBasedHighAdj then w.status else .success
      processed := processed }
  | none => { w with cursor := .done .unsupported, processed := processed }

/-- One turn of a loop. -/
def step (w : Walk) : Walk :=
  match w.cursor with
  | .block relocBase =>
    if relocBase < dirEnd then enter image pass relocBase w
    else { w with cursor := .done .success }
  | .entry reloc relocEnd fixupBase =>
    if reloc < relocEnd then process (A := A) pass adjust reloc relocEnd fixupBase w
    else { w with cursor := .block relocEnd }
  | .done _ => w

/-- `IMAGE_DATA_DIRECTORY` -/
structure DataDirectory where
  virtualAddress : BitVec 32
  size : BitVec 32

/-- Where the directory begins. -/
def Image.relocBase (relocDir : DataDirectory) : Nat :=
  image.imageAddress relocDir.virtualAddress.toNat

/-- Where it ends; the sum has 32 bits. -/
def Image.relocBaseEnd (relocDir : DataDirectory) : Nat :=
  image.imageAddress (relocDir.virtualAddress + relocDir.size).toNat

/-- The pass over a directory. -/
def start (m : Memory) (fixupData : Nat) (relocDir : DataDirectory) : Walk :=
  ⟨.block (image.relocBase relocDir), m, fixupData, .loadError, []⟩

/-- The walk after some steps. -/
def walk (w : Walk) (n : Nat) : Walk := (step image pass adjust dirEnd)^[n] w

def Cursor.isDone : Cursor → Bool
  | .done _ => true
  | _ => false

/-- The loops end, and no entry is processed twice. -/
structure Terminates (w : Walk) : Prop where
  ends : ∃ n, (walk image pass adjust dirEnd w n).cursor.isDone = true
  once : ∀ n, (walk image pass adjust dirEnd w n).processed.Nodup

/-- The block, if the pass goes into it, ends behind its start, and not at the end of the address
space. -/
def Forward (w : Walk) : Prop :=
  ∀ relocBase, w.cursor = .block relocBase → relocBase < dirEnd →
    pass.rejects image (relocEnd A w.memory relocBase) = false →
      relocBase < relocEnd A w.memory relocBase ∧ relocEnd A w.memory relocBase + 1 < 2 ^ A.bits

/-- So is every block that the pass reaches. -/
def AllForward (w : Walk) : Prop :=
  ∀ n, Forward image pass dirEnd (walk image pass adjust dirEnd w n)

end EfiCore.Pe
