/-
# A directory that may lose what was not synced

A directory of files, each with a temporary file beside it.  The names point to inodes.  What
is written to an inode is on the medium once the inode was synced, and a change of the
directory once the directory was.  A power failure brings back one of the versions that the
directory had since its last sync, and leaves anything in an inode that was not synced.

Programs read `now`; `May` is what they may read after a power failure.  The functions are
the system calls.  In a `Sound` directory, which all of them keep, the writing of temporary
files is not seen (`now_create`, …), renaming and removing one are one more version
(`may_replace`, `may_unlink`), and a sync leaves one (`may_syncDir`).
-/

import Mathlib.Data.List.Basic
import Mathlib.Logic.Function.Basic
import Mathlib.Tactic.SplitIfs

namespace MorpheusGateway

/-- A name of the directory: a file, or the temporary file beside it. -/
inductive DirName (ν : Type) : Type where
  | file (n : ν)
  | temp (n : ν)
  deriving DecidableEq

/-- The content of a file, and whether it is on the medium. -/
structure Inode (β : Type) where
  content : β
  synced : Bool

/-- A version of the directory. -/
abbrev Dir (ν : Type) := DirName ν → Option ℕ

/-- The directory, its versions since the last sync, the inodes, and the first unused one. -/
structure Disk (ν β : Type) where
  inodes : ℕ → Inode β
  fresh : ℕ
  dir : Dir ν
  past : List (Dir ν) := []

namespace Disk

variable {ν β : Type} (d : Disk ν β)

/-- The versions that a power failure may bring back. -/
def versions : List (Dir ν) := d.dir :: d.past

/-- The files of a version. -/
def reads (D : Dir ν) (n : ν) : Option β := (D (.file n)).map fun i => (d.inodes i).content

/-- What programs read. -/
def now : ν → Option β := d.reads d.dir

/-- What they may read after a power failure. -/
def May (v : ν → Option β) : Prop := ∃ D ∈ d.versions, v = d.reads D

/-- An inode is written. -/
def store (i : ℕ) (x : Inode β) : Disk ν β := { d with inodes := Function.update d.inodes i x }

/-- The directory is changed. -/
def enter (D : Dir ν) : Disk ν β := { d with dir := D, past := d.versions }

section Calls

variable [DecidableEq ν]

/-- The temporary file is opened for writing: it is emptied, or made. -/
def create (n : ν) (b : β) : Disk ν β :=
  match d.dir (.temp n) with
  | some i => d.store i ⟨b, false⟩
  | none =>
    { (d.store d.fresh ⟨b, false⟩).enter (Function.update d.dir (.temp n) (some d.fresh)) with
      fresh := d.fresh + 1 }

/-- The temporary file is written. -/
def write (n : ν) (b : β) : Disk ν β :=
  match d.dir (.temp n) with
  | some i => d.store i ⟨b, false⟩
  | none => d

/-- The temporary file is synced. -/
def fsync (n : ν) : Disk ν β :=
  match d.dir (.temp n) with
  | some i => d.store i { d.inodes i with synced := true }
  | none => d

/-- The temporary file takes the place of the file. -/
def replace (n : ν) : Disk ν β :=
  d.enter (Function.update (Function.update d.dir (.file n) (d.dir (.temp n))) (.temp n) none)

/-- The file is removed. -/
def unlink (n : ν) : Disk ν β := d.enter (Function.update d.dir (.file n) none)

/-- The directory is synced. -/
def syncDir : Disk ν β := { d with past := [] }

/-- The power fails: the version `D` comes back, and `lost` is in the inodes that were not synced. -/
def power (D : Dir ν) (lost : ℕ → β) : Disk ν β where
  inodes i := if (d.inodes i).synced then d.inodes i else ⟨lost i, true⟩
  fresh := d.fresh
  dir := D

end Calls

/-! ### Sound directories -/

/-- Files are synced, names of one version have different inodes, and the inodes of the
temporary files are those of no file. -/
structure Sound : Prop where
  synced : ∀ D ∈ d.versions, ∀ n i, D (.file n) = some i → (d.inodes i).synced = true
  used : ∀ D ∈ d.versions, ∀ x i, D x = some i → i < d.fresh
  distinct : ∀ D ∈ d.versions, ∀ x y i, D x = some i → D y = some i → x = y
  apart : ∀ n i, d.dir (.temp n) = some i → ∀ D ∈ d.versions, ∀ m, D (.file m) ≠ some i

/-- The content of the temporary file, if it is written and synced as far as asked. -/
def Holds (n : ν) (b : β) (synced : Bool) : Prop :=
  ∃ i, d.dir (.temp n) = some i ∧ (d.inodes i).content = b ∧ (synced = true → (d.inodes i).synced = true)

variable {d}

/-- The directory as it is now is one that a power failure may leave. -/
theorem dir_mem : d.dir ∈ d.versions := List.mem_cons_self

/-- The disk may show what it shows now. -/
theorem May.now : d.May d.now := ⟨d.dir, dir_mem, rfl⟩

/-- A file has what was stored in it. -/
theorem inodes_store {i : ℕ} {x : Inode β} : (d.store i x).inodes i = x := Function.update_self ..

/-- What is written to an inode of no file is not seen. -/
theorem reads_store {i : ℕ} {x : Inode β} {D : Dir ν} (h : ∀ m, D (.file m) ≠ some i) :
    (d.store i x).reads D = d.reads D := by
  funext n
  unfold reads
  cases hn : D (.file n) with
  | none => rfl
  | some j =>
    have hj : j ≠ i := fun e => h n (by rw [hn, e])
    show some (Function.update d.inodes i x j).content = some (d.inodes j).content
    rw [Function.update_of_ne hj]

/-- The same directory, with another inode. -/
structure Same (d d' : Disk ν β) : Prop where
  now : d'.now = d.now
  may : ∀ v, d'.May v ↔ d.May v

/-- A disk shows what it shows. -/
theorem Same.refl (d : Disk ν β) : Same d d := ⟨rfl, fun _ => Iff.rfl⟩

/-- A file that no name leads to is not seen. -/
theorem same_store {i : ℕ} {x : Inode β}
    (hi : ∀ D ∈ d.versions, ∀ m, D (.file m) ≠ some i) : Same d (d.store i x) where
  now := reads_store (hi _ dir_mem)
  may v := by
    constructor
    · rintro ⟨D, hD, rfl⟩
      exact ⟨D, hD, reads_store (hi D hD)⟩
    · rintro ⟨D, hD, rfl⟩
      exact ⟨D, hD, (reads_store (hi D hD)).symm⟩

/-- Writing to it keeps the disk sound. -/
theorem Sound.store (h : d.Sound) {i : ℕ} {x : Inode β}
    (hi : ∀ D ∈ d.versions, ∀ m, D (.file m) ≠ some i) : (d.store i x).Sound where
  synced D hD n j hj := by
    have hne : j ≠ i := fun e => hi D hD n (by rw [hj, e])
    show (Function.update d.inodes i x j).synced = true
    rw [Function.update_of_ne hne]
    exact h.synced D hD n j hj
  used := h.used
  distinct := h.distinct
  apart := h.apart

/-- A new directory is added to those that a power failure may leave. -/
theorem mem_versions_enter {D D' : Dir ν} : D' ∈ (d.enter D).versions ↔ D' = D ∨ D' ∈ d.versions :=
  List.mem_cons

/-- What may be read is what might be read before, or is now. -/
theorem may_enter {D : Dir ν} {v : ν → Option β} :
    (d.enter D).May v ↔ d.May v ∨ v = d.reads D := by
  constructor
  · rintro ⟨D', hD, rfl⟩
    rcases mem_versions_enter.1 hD with rfl | hD
    · exact .inr rfl
    · exact .inl ⟨D', hD, rfl⟩
  · rintro (⟨D', hD, rfl⟩ | rfl)
    · exact ⟨D', mem_versions_enter.2 (.inr hD), rfl⟩
    · exact ⟨D, mem_versions_enter.2 (.inl rfl), rfl⟩

/-- One more version. -/
theorem Sound.enter (h : d.Sound) {D : Dir ν}
    (synced : ∀ n i, D (.file n) = some i → (d.inodes i).synced = true)
    (used : ∀ x i, D x = some i → i < d.fresh)
    (distinct : ∀ x y i, D x = some i → D y = some i → x = y)
    (apart : ∀ n i, D (.temp n) = some i → ∀ D' ∈ d.versions, ∀ m, D' (.file m) ≠ some i) :
    (d.enter D).Sound where
  synced D' hD n i hi := by
    rcases mem_versions_enter.1 hD with rfl | hD
    · exact synced n i hi
    · exact h.synced D' hD n i hi
  used D' hD x i hi := by
    rcases mem_versions_enter.1 hD with rfl | hD
    · exact used x i hi
    · exact h.used D' hD x i hi
  distinct D' hD x y i hx hy := by
    rcases mem_versions_enter.1 hD with rfl | hD
    · exact distinct x y i hx hy
    · exact h.distinct D' hD x y i hx hy
  apart n i hn D' hD m hm := by
    rcases mem_versions_enter.1 hD with rfl | hD
    · cases distinct _ _ i hn hm
    · exact apart n i hn D' hD m hm

/-- The first unused inode is that of no name. -/
theorem Sound.ne_fresh (h : d.Sound) {D : Dir ν} (hD : D ∈ d.versions) (x : DirName ν) :
    D x ≠ some d.fresh := fun e => Nat.lt_irrefl _ (h.used D hD x _ e)

/-- A number that is given away keeps the disk sound. -/
theorem Sound.grow (h : d.Sound) : Sound { d with fresh := d.fresh + 1 } where
  synced := h.synced
  used D hD x i hi := Nat.lt_succ_of_lt (h.used D hD x i hi)
  distinct := h.distinct
  apart := h.apart

/-! ### The system calls -/

section Calls

variable [DecidableEq ν] {n : ν} {b c : β}

/-- A temporary file replaces no other. -/
@[simp] theorem update_temp_file (D : Dir ν) (n m : ν) (o : Option ℕ) :
    Function.update D (.temp n) o (.file m) = D (.file m) :=
  Function.update_of_ne (fun e => (by cases e)) ..

/-- Nor does a file replace a temporary one. -/
@[simp] theorem update_file_temp (D : Dir ν) (n m : ν) (o : Option ℕ) :
    Function.update D (.file n) o (.temp m) = D (.temp m) :=
  Function.update_of_ne (fun e => (by cases e)) ..

/-- Temporary files are not read. -/
theorem reads_update_temp (D : Dir ν) (o : Option ℕ) :
    d.reads (Function.update D (.temp n) o) = d.reads D := by
  funext m
  rw [reads, reads, update_temp_file]

/-- A name is read as the file that it leads to. -/
theorem reads_update_file (D : Dir ν) (o : Option ℕ) :
    d.reads (Function.update D (.file n) o) =
      Function.update (d.reads D) n (o.map fun i => (d.inodes i).content) := by
  funext m
  rcases eq_or_ne m n with rfl | hm
  · rw [reads, Function.update_self, Function.update_self]
  · rw [reads, Function.update_of_ne (fun e => hm (by cases e; rfl)), Function.update_of_ne hm, reads]

/-- Creating a temporary file keeps the disk sound. -/
theorem Sound.create (h : d.Sound) : (d.create n b).Sound := by
  unfold Disk.create
  cases hn : d.dir (.temp n) with
  | some i => exact h.store (h.apart n i hn)
  | none =>
    have stored : Sound { d.store d.fresh ⟨b, false⟩ with fresh := d.fresh + 1 } :=
      (h.store fun D hD m => h.ne_fresh hD _).grow
    refine stored.enter (D := Function.update d.dir (.temp n) (some d.fresh)) (fun m i hi => ?_)
      (fun x i hi => ?_) (fun x y i hx hy => ?_) fun m i hi D hD k hk => ?_
    · rw [update_temp_file] at hi
      exact stored.synced _ dir_mem m i hi
    · rcases eq_or_ne x (.temp n) with rfl | hx
      · rw [Function.update_self] at hi
        obtain rfl := Option.some.inj hi
        exact Nat.lt_succ_self _
      · rw [Function.update_of_ne hx] at hi
        exact Nat.lt_succ_of_lt (h.used _ dir_mem x i hi)
    · rcases eq_or_ne x (.temp n) with rfl | hxn
      · rw [Function.update_self] at hx
        obtain rfl := Option.some.inj hx
        by_contra hne
        rw [Function.update_of_ne (Ne.symm hne)] at hy
        exact h.ne_fresh dir_mem y hy
      · rw [Function.update_of_ne hxn] at hx
        rcases eq_or_ne y (.temp n) with rfl | hyn
        · rw [Function.update_self] at hy
          obtain rfl := Option.some.inj hy
          exact absurd hx (h.ne_fresh dir_mem x)
        · rw [Function.update_of_ne hyn] at hy
          exact h.distinct _ dir_mem x y i hx hy
    · rcases eq_or_ne m n with rfl | hm
      · rw [Function.update_self] at hi
        obtain rfl := Option.some.inj hi
        exact h.ne_fresh hD _ hk
      · rw [Function.update_of_ne fun e => hm (by cases e; rfl)] at hi
        exact h.apart m i hi D hD k hk

/-- Opening a temporary file is not seen. -/
theorem Sound.same_create (h : d.Sound) : Same d (d.create n b) := by
  unfold Disk.create
  cases hn : d.dir (.temp n) with
  | some i => exact same_store (h.apart n i hn)
  | none =>
    have hs : Same d (d.store d.fresh ⟨b, false⟩) := same_store fun D hD m => h.ne_fresh hD _
    refine ⟨(reads_update_temp _ _).trans hs.now, fun v => ?_⟩
    refine may_enter.trans ?_
    show _ ∨ v = (d.store d.fresh ⟨b, false⟩).reads (Function.update d.dir (.temp n) _) ↔ _
    rw [reads_update_temp]
    constructor
    · rintro (hv | rfl)
      · exact (hs.may v).1 hv
      · exact (hs.may _).1 May.now
    · exact fun hv => .inl ((hs.may v).2 hv)

/-- It holds what it was created with, not yet on the disk. -/
theorem holds_create : (d.create n b).Holds n b false := by
  unfold Disk.create
  cases hn : d.dir (.temp n) with
  | some i => exact ⟨i, hn, congrArg Inode.content inodes_store, fun h => (by cases h)⟩
  | none =>
    exact ⟨d.fresh, Function.update_self .., congrArg Inode.content inodes_store,
      fun h => (by cases h)⟩

/-- A file that is written and synced may take the place of another. -/
theorem Sound.replace (h : d.Sound) (hb : d.Holds n b true) : (d.replace n).Sound := by
  obtain ⟨i, hi, -, hs⟩ := hb
  have file : ∀ {m j}, Function.update (Function.update d.dir (.file n) (d.dir (.temp n)))
      (.temp n) none (.file m) = some j → m = n ∧ j = i ∨ d.dir (.file m) = some j := by
    intro m j hj
    rw [update_temp_file] at hj
    rcases eq_or_ne m n with rfl | hm
    · rw [Function.update_self, hi] at hj
      exact .inl ⟨rfl, (Option.some.inj hj).symm⟩
    · rw [Function.update_of_ne fun e => hm (by cases e; rfl)] at hj
      exact .inr hj
  have temp : ∀ {m j}, Function.update (Function.update d.dir (.file n) (d.dir (.temp n)))
      (.temp n) none (.temp m) = some j → m ≠ n ∧ d.dir (.temp m) = some j := by
    intro m j hj
    rcases eq_or_ne m n with rfl | hm
    · rw [Function.update_self] at hj
      cases hj
    · rw [Function.update_of_ne fun e => hm (by cases e; rfl), update_file_temp] at hj
      exact ⟨hm, hj⟩
  refine h.enter (fun m j hj => ?_) (fun x j hj => ?_) (fun x y j hx hy => ?_) fun m j hj => ?_
  · rcases file hj with ⟨-, rfl⟩ | hj
    · exact hs rfl
    · exact h.synced _ dir_mem m j hj
  · cases x with
    | file m =>
      rcases file hj with ⟨-, rfl⟩ | hj
      · exact h.used _ dir_mem _ _ hi
      · exact h.used _ dir_mem _ _ hj
    | temp m => exact h.used _ dir_mem _ _ (temp hj).2
  · cases x with
    | file m =>
      cases y with
      | file k =>
        rcases file hx with ⟨rfl, rfl⟩ | mx
        · rcases file hy with ⟨rfl, -⟩ | my
          · rfl
          · exact absurd my (h.apart m j hi _ dir_mem k)
        · rcases file hy with ⟨rfl, rfl⟩ | my
          · exact absurd mx (h.apart k j hi _ dir_mem m)
          · exact h.distinct _ dir_mem _ _ j mx my
      | temp k =>
        obtain ⟨hk, my⟩ := temp hy
        rcases file hx with ⟨rfl, rfl⟩ | mx
        · cases h.distinct _ dir_mem _ _ j hi my
          exact absurd rfl hk
        · exact absurd mx (h.apart k j my _ dir_mem m)
    | temp m =>
      obtain ⟨hm, mx⟩ := temp hx
      cases y with
      | file k =>
        rcases file hy with ⟨rfl, rfl⟩ | my
        · cases h.distinct _ dir_mem _ _ j hi mx
          exact absurd rfl hm
        · exact absurd my (h.apart m j mx _ dir_mem k)
      | temp k => exact h.distinct _ dir_mem _ _ j mx (temp hy).2
  · exact h.apart m j (temp hj).2

/-- Behind the replacement the name is read as the temporary file was. -/
theorem reads_replace (hb : d.Holds n b true) :
    d.reads (Function.update (Function.update d.dir (.file n) (d.dir (.temp n))) (.temp n) none) =
      Function.update d.now n (some b) := by
  obtain ⟨i, hi, hc, -⟩ := hb
  rw [reads_update_temp, reads_update_file, hi]
  exact congrArg (Function.update d.now n) (congrArg some hc)

/-- The replacement is seen at once. -/
theorem now_replace (hb : d.Holds n b true) : (d.replace n).now = Function.update d.now n (some b) :=
  reads_replace hb

/-- **A file is replaced as a whole**, now or also after a power failure. -/
theorem may_replace (hb : d.Holds n b true) (v : ν → Option β) :
    (d.replace n).May v ↔ d.May v ∨ v = Function.update d.now n (some b) := by
  rw [replace, may_enter, reads_replace hb]

/-- Removing a name keeps the disk sound. -/
theorem Sound.unlink (h : d.Sound) : (d.unlink n).Sound := by
  have old : ∀ {x j}, Function.update d.dir (.file n) none x = some j → d.dir x = some j := by
    intro x j hj
    rcases eq_or_ne x (.file n) with rfl | hx
    · rw [Function.update_self] at hj
      cases hj
    · rwa [Function.update_of_ne hx] at hj
  refine h.enter (fun m j hj => ?_) (fun x j hj => ?_) (fun x y j hx hy => ?_) fun m j hj => ?_
  · exact h.synced _ dir_mem m j (old hj)
  · exact h.used _ dir_mem x j (old hj)
  · exact h.distinct _ dir_mem x y j (old hx) (old hy)
  · exact h.apart m j (old hj)

/-- The removal is seen at once. -/
theorem now_unlink : (d.unlink n).now = Function.update d.now n none := reads_update_file _ _

/-- After a power failure the name may still be there. -/
theorem may_unlink (v : ν → Option β) :
    (d.unlink n).May v ↔ d.May v ∨ v = Function.update d.now n none := by
  rw [unlink, may_enter, reads_update_file]
  rfl

end Calls

variable {n : ν} {b c : β}

/-- Writing a temporary file keeps the disk sound. -/
theorem Sound.write (h : d.Sound) : (d.write n b).Sound := by
  unfold Disk.write
  cases hn : d.dir (.temp n) with
  | some i => exact h.store (h.apart n i hn)
  | none => exact h

/-- Writing a temporary file is not seen. -/
theorem Sound.same_write (h : d.Sound) : Same d (d.write n b) := by
  unfold Disk.write
  cases hn : d.dir (.temp n) with
  | some i => exact same_store (h.apart n i hn)
  | none => exact .refl d

/-- It holds what was written, not yet on the disk. -/
theorem Holds.write {synced : Bool} (h : d.Holds n c synced) : (d.write n b).Holds n b false := by
  obtain ⟨i, hi, -, -⟩ := h
  unfold Disk.write
  rw [hi]
  exact ⟨i, hi, congrArg Inode.content inodes_store, fun h => (by cases h)⟩

/-- Bringing a file to the disk keeps the disk sound. -/
theorem Sound.fsync (h : d.Sound) : (d.fsync n).Sound := by
  unfold Disk.fsync
  cases hn : d.dir (.temp n) with
  | some i => exact h.store (h.apart n i hn)
  | none => exact h

/-- Syncing a temporary file is not seen. -/
theorem Sound.same_fsync (h : d.Sound) : Same d (d.fsync n) := by
  unfold Disk.fsync
  cases hn : d.dir (.temp n) with
  | some i => exact same_store (h.apart n i hn)
  | none => exact .refl d

/-- The file is on the disk then. -/
theorem Holds.fsync {synced : Bool} (h : d.Holds n b synced) : (d.fsync n).Holds n b true := by
  obtain ⟨i, hi, hb, -⟩ := h
  unfold Disk.fsync
  rw [hi]
  refine ⟨i, hi, ?_, fun _ => congrArg Inode.synced inodes_store⟩
  exact (congrArg Inode.content inodes_store).trans hb

/-- Bringing the directory to the disk keeps the disk sound. -/
theorem Sound.syncDir (h : d.Sound) : d.syncDir.Sound where
  synced D hD := h.synced D (List.mem_singleton.1 hD ▸ dir_mem)
  used D hD := h.used D (List.mem_singleton.1 hD ▸ dir_mem)
  distinct D hD := h.distinct D (List.mem_singleton.1 hD ▸ dir_mem)
  apart n i hn D hD := h.apart n i hn D (List.mem_singleton.1 hD ▸ dir_mem)

/-- **After a sync there is one version.** -/
theorem may_syncDir (v : ν → Option β) : d.syncDir.May v ↔ v = d.now := by
  constructor
  · rintro ⟨D, hD, rfl⟩
    obtain rfl := List.mem_singleton.1 hD
    rfl
  · rintro rfl
    exact ⟨d.dir, dir_mem, rfl⟩

/-- A power failure leaves the files that a directory leads to. -/
theorem Sound.reads_power (h : d.Sound) {D : Dir ν} (hD : D ∈ d.versions) (lost : ℕ → β) :
    (d.power D lost).reads D = d.reads D := by
  funext n
  unfold reads
  cases hn : D (.file n) with
  | none => rfl
  | some i =>
    show some (if (d.inodes i).synced = true then d.inodes i else ⟨lost i, true⟩).content = _
    rw [if_pos (h.synced D hD n i hn)]
    rfl

/-- A power failure keeps the disk sound. -/
theorem Sound.power (h : d.Sound) {D : Dir ν} (hD : D ∈ d.versions) (lost : ℕ → β) :
    (d.power D lost).Sound where
  synced D' hD' n i hi := by
    show (if (d.inodes i).synced = true then d.inodes i else ⟨lost i, true⟩).synced = true
    split_ifs with hs
    · exact hs
    · rfl
  used D' hD' := h.used D' (List.mem_singleton.1 hD' ▸ hD)
  distinct D' hD' := h.distinct D' (List.mem_singleton.1 hD' ▸ hD)
  apart n i hn D' hD' m hm := by
    rw [List.mem_singleton.1 hD'] at hm
    cases h.distinct D hD _ _ i hn hm

/-- **A power failure brings back what may be read**, and that is on the medium. -/
theorem Sound.may_power (h : d.Sound) {D : Dir ν} (hD : D ∈ d.versions) (lost : ℕ → β) :
    d.May (d.power D lost).now ∧ ∀ v, (d.power D lost).May v ↔ v = (d.power D lost).now := by
  refine ⟨⟨D, hD, h.reads_power hD lost⟩, fun v => ⟨?_, ?_⟩⟩
  · rintro ⟨D', hD', rfl⟩
    obtain rfl := List.mem_singleton.1 hD'
    rfl
  · rintro rfl
    exact .now

/-- A directory without files is sound. -/
theorem Sound.of_empty (inodes : ℕ → Inode β) : Sound (ν := ν) ⟨inodes, 0, fun _ => none, []⟩ where
  synced D hD n i hi := by
    rw [List.mem_singleton.1 hD] at hi
    cases hi
  used D hD x i hi := by
    rw [List.mem_singleton.1 hD] at hi
    cases hi
  distinct D hD x y i hi := by
    rw [List.mem_singleton.1 hD] at hi
    cases hi
  apart n i hi := by cases hi

end Disk
end MorpheusGateway
