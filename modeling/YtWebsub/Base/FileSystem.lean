import YtWebsub.Base.Text

open rust.utf8

namespace rust.fs

/-- Paths are compared as text; no link, `.` or `..` is involved in what is modelled. -/
abbrev Path := Text

/-- A directory: which inode each name refers to. -/
abbrev Entries := Path → Option Nat

/-- Every name refers to an inode below the bound. -/
def Entries.Below (entries : Entries) (bound : Nat) : Prop :=
  ∀ path inode, entries path = some inode → inode < bound

/-- No inode has two names: nothing modelled here calls `link`. -/
def Entries.Injective (entries : Entries) : Prop :=
  ∀ path path' inode, entries path = some inode → entries path' = some inode → path = path'

theorem Entries.Below.insert {entries : Entries} {bound bound' : Nat} (h : entries.Below bound)
    (hle : bound ≤ bound') {inode : Nat} (hinode : inode < bound') (path : Path) :
    Entries.Below (Function.update entries path (some inode)) bound' := by
  intro p i hp
  by_cases heq : p = path
  · subst heq
    simp only [Function.update_self, Option.some.injEq] at hp
    omega
  · rw [Function.update_of_ne heq] at hp
    exact (h p i hp).trans_le hle

theorem Entries.Below.erase {entries : Entries} {bound : Nat} (h : entries.Below bound) (path : Path) :
    Entries.Below (Function.update entries path none) bound := by
  intro p i hp
  by_cases heq : p = path
  · subst heq
    simp at hp
  · rw [Function.update_of_ne heq] at hp
    exact h p i hp

theorem Entries.Injective.insert {entries : Entries} (h : entries.Injective) {path : Path} {inode : Nat}
    (hnew : ∀ p, entries p = some inode → p = path) :
    Entries.Injective (Function.update entries path (some inode)) := by
  intro p q i hp hq
  by_cases hpp : p = path <;> by_cases hqp : q = path
  · rw [hpp, hqp]
  · subst hpp
    rw [Function.update_self, Option.some.injEq] at hp
    rw [Function.update_of_ne hqp, ← hp] at hq
    exact (hnew q hq).symm
  · subst hqp
    rw [Function.update_self, Option.some.injEq] at hq
    rw [Function.update_of_ne hpp, ← hq] at hp
    exact hnew p hp
  · rw [Function.update_of_ne hpp] at hp
    rw [Function.update_of_ne hqp] at hq
    exact h p q i hp hq

theorem Entries.Injective.erase {entries : Entries} (h : entries.Injective) (path : Path) :
    Entries.Injective (Function.update entries path none) := by
  intro p q i hp hq
  by_cases hpp : p = path
  · subst hpp
    simp at hp
  · by_cases hqp : q = path
    · subst hqp
      simp at hq
    · rw [Function.update_of_ne hpp] at hp
      rw [Function.update_of_ne hqp] at hq
      exact h p q i hp hq

/-- Directory entries and file contents (by inode number) are separate, so that an
open handle keeps referring to its inode after a rename. -/
structure FileSystem where
  entries : Entries
  data : Nat → Bytes
  /-- How much of each file is known to have reached the disk. -/
  synced : Nat → Nat
  /-- The next inode number to be used. -/
  fresh : Nat
  below : entries.Below fresh
  injective : entries.Injective

/-- An empty directory. -/
def FileSystem.empty : FileSystem where
  entries _ := none
  data _ := []
  synced _ := 0
  fresh := 0
  below := by simp [Entries.Below]
  injective := by simp [Entries.Injective]

namespace FileSystem

/-- The contents of the file of this name; `none` when there is none. -/
def read (fs : FileSystem) (path : Path) : Option Bytes :=
  (fs.entries path).map fs.data

/-- A new empty file under `path`. -/
def createNew (fs : FileSystem) (path : Path) : FileSystem where
  entries := Function.update fs.entries path (some fs.fresh)
  data := Function.update fs.data fs.fresh []
  synced := Function.update fs.synced fs.fresh 0
  fresh := fs.fresh + 1
  below := fs.below.insert (Nat.le_succ _) (Nat.lt_succ_self _) path
  injective := fs.injective.insert fun p hp => absurd (fs.below p _ hp) (lt_irrefl _)

/-- Replaces the contents of one inode. -/
def setData (fs : FileSystem) (inode : Nat) (bytes : Bytes) : FileSystem :=
  { fs with data := Function.update fs.data inode bytes }

/-- `OpenOptions::new().create(true).append(true).open`. -/
def openAppend (fs : FileSystem) (path : Path) : FileSystem × Nat :=
  match fs.entries path with
  | some inode => (fs, inode)
  | none => (fs.createNew path, fs.fresh)

/-- `File::create`: creates the file, or truncates the one the name refers to. -/
def create (fs : FileSystem) (path : Path) : FileSystem × Nat :=
  match fs.entries path with
  | some inode => ({ fs.setData inode [] with synced := Function.update fs.synced inode 0 }, inode)
  | none => (fs.createNew path, fs.fresh)

/-- A write at the end of the file. -/
def append (fs : FileSystem) (inode : Nat) (bytes : Bytes) : FileSystem :=
  fs.setData inode (fs.data inode ++ bytes)

/-- A write at a handle's own offset; a gap left by someone else's truncation reads as zeros. -/
def writeAt (fs : FileSystem) (inode : Nat) (offset : Nat) (bytes : Bytes) : FileSystem :=
  let old := fs.data inode
  fs.setData inode (old.take offset ++ List.replicate (offset - old.length) 0 ++ bytes ++
    old.drop (offset + bytes.length))

/-- `File::sync_data`. -/
def sync (fs : FileSystem) (inode : Nat) : FileSystem :=
  { fs with synced := Function.update fs.synced inode (fs.data inode).length }

/-- `fs::rename`; `none` when there is no file of the first name. -/
def rename (fs : FileSystem) (source target : Path) : Option FileSystem :=
  match hsource : fs.entries source with
  | none => none
  | some inode =>
    some { fs with
      entries := Function.update (Function.update fs.entries source none) target (some inode)
      below := (fs.below.erase source).insert le_rfl (fs.below source inode hsource) target
      injective := (fs.injective.erase source).insert fun p hp => by
        by_cases heq : p = source
        · subst heq
          simp at hp
        · rw [Function.update_of_ne heq] at hp
          exact absurd (fs.injective p source inode hp hsource) heq }

/-- `fs::remove_file`. -/
def remove (fs : FileSystem) (path : Path) : FileSystem :=
  { fs with
    entries := Function.update fs.entries path none
    below := fs.below.erase path
    injective := fs.injective.erase path }

theorem entries_lt (fs : FileSystem) {path : Path} {inode : Nat} (h : fs.entries path = some inode) :
    inode < fs.fresh :=
  fs.below path inode h

theorem read_eq_some {fs : FileSystem} {path : Path} {inode : Nat} (h : fs.entries path = some inode) :
    fs.read path = some (fs.data inode) := by
  rw [read, h, Option.map_some]

@[simp]
theorem append_entries (fs : FileSystem) (inode : Nat) (bytes : Bytes) :
    (fs.append inode bytes).entries = fs.entries := rfl

@[simp]
theorem append_nil (fs : FileSystem) (inode : Nat) : fs.append inode [] = fs := by
  rw [append, List.append_nil, setData, Function.update_eq_self]

@[simp]
theorem append_data_self (fs : FileSystem) (inode : Nat) (bytes : Bytes) :
    (fs.append inode bytes).data inode = fs.data inode ++ bytes := by
  simp [append, setData]

@[simp]
theorem append_synced (fs : FileSystem) (inode : Nat) (bytes : Bytes) :
    (fs.append inode bytes).synced = fs.synced := rfl

@[simp]
theorem sync_entries (fs : FileSystem) (inode : Nat) : (fs.sync inode).entries = fs.entries := rfl

@[simp]
theorem sync_data (fs : FileSystem) (inode : Nat) : (fs.sync inode).data = fs.data := rfl

/-- Appending to one file leaves every other file alone. -/
theorem append_read_of_ne {fs : FileSystem} {path other : Path} {inode : Nat}
    (h : fs.entries path = some inode) (hne : other ≠ path) (bytes : Bytes) :
    (fs.append inode bytes).read other = fs.read other := by
  unfold read
  rw [append_entries]
  cases hother : fs.entries other with
  | none => rfl
  | some i =>
    have hi : i ≠ inode := by
      rintro rfl
      exact hne (fs.injective _ _ _ hother h)
    simp [append, setData, hi]

theorem append_read_self {fs : FileSystem} {path : Path} {inode : Nat} (h : fs.entries path = some inode)
    (bytes : Bytes) : (fs.append inode bytes).read path = some (fs.data inode ++ bytes) := by
  rw [read_eq_some (append_entries fs inode bytes ▸ h), append_data_self]

/-- A write where the file ends is an append. -/
theorem writeAt_end (fs : FileSystem) (inode : Nat) (bytes : Bytes) :
    fs.writeAt inode (fs.data inode).length bytes = fs.append inode bytes := by
  have hrest : (fs.data inode).drop ((fs.data inode).length + bytes.length) = [] :=
    List.drop_of_length_le (Nat.le_add_right _ _)
  simp [writeAt, append, hrest]

theorem sync_read (fs : FileSystem) (inode : Nat) (path : Path) : (fs.sync inode).read path = fs.read path := rfl

@[simp]
theorem openAppend_entries_self (fs : FileSystem) (path : Path) :
    (fs.openAppend path).1.entries path = some (fs.openAppend path).2 := by
  unfold openAppend
  cases h : fs.entries path with
  | none => simp [createNew]
  | some inode => simp [h]

/-- Opening for append creates a missing file empty and changes no contents. -/
theorem openAppend_read_self (fs : FileSystem) (path : Path) :
    (fs.openAppend path).1.read path = some ((fs.read path).getD []) := by
  unfold openAppend read
  cases h : fs.entries path with
  | none => simp [createNew]
  | some inode => simp [h]

theorem openAppend_read_of_ne (fs : FileSystem) {path other : Path} (hne : other ≠ path) :
    (fs.openAppend path).1.read other = fs.read other := by
  unfold openAppend read
  cases h : fs.entries path with
  | some inode => rfl
  | none =>
    simp only [createNew, Function.update_of_ne hne]
    cases hother : fs.entries other with
    | none => rfl
    | some inode =>
      have hlt := fs.entries_lt hother
      simp [Function.update_of_ne (show inode ≠ fs.fresh by omega)]

@[simp]
theorem create_entries_self (fs : FileSystem) (path : Path) :
    (fs.create path).1.entries path = some (fs.create path).2 := by
  unfold create
  cases h : fs.entries path with
  | none => simp [createNew]
  | some inode => simpa [setData] using h

@[simp]
theorem create_data_self (fs : FileSystem) (path : Path) :
    (fs.create path).1.data (fs.create path).2 = [] := by
  unfold create
  cases fs.entries path <;> simp [createNew, setData]

theorem create_entries_of_ne (fs : FileSystem) {path other : Path} (hne : other ≠ path) :
    (fs.create path).1.entries other = fs.entries other := by
  unfold create
  cases fs.entries path with
  | none => simp [createNew, Function.update_of_ne hne]
  | some inode => rfl

/-- Creating one file leaves every other file alone. -/
theorem create_read_of_ne (fs : FileSystem) {path other : Path} (hne : other ≠ path) :
    (fs.create path).1.read other = fs.read other := by
  unfold read
  rw [create_entries_of_ne fs hne]
  cases hother : fs.entries other with
  | none => rfl
  | some inode =>
    unfold create
    cases h : fs.entries path with
    | none =>
      have hlt := fs.entries_lt hother
      simp [createNew, Function.update_of_ne (show inode ≠ fs.fresh by omega)]
    | some inode' =>
      have hi : inode ≠ inode' := by
        rintro rfl
        exact hne (fs.injective _ _ _ hother h)
      simp [setData, Function.update_of_ne hi]

/-- The file created under one name is not the file of another name. -/
theorem create_ne (fs : FileSystem) {path other : Path} {inode : Nat} (h : fs.entries other = some inode)
    (hne : other ≠ path) : (fs.create path).2 ≠ inode := by
  rintro rfl
  exact hne ((fs.create path).1.injective _ _ _ ((fs.create_entries_of_ne hne).trans h) (fs.create_entries_self path))

theorem remove_entries_of_ne (fs : FileSystem) {path other : Path} (hne : other ≠ path) :
    (fs.remove path).entries other = fs.entries other := by
  simp [remove, Function.update_of_ne hne]

theorem remove_read_of_ne (fs : FileSystem) {path other : Path} (hne : other ≠ path) :
    (fs.remove path).read other = fs.read other := by
  unfold read
  rw [remove_entries_of_ne fs hne]
  rfl

/-- Renaming an existing file moves its name and touches no contents. -/
theorem rename_of_entries {fs : FileSystem} {source : Path} {inode : Nat} (h : fs.entries source = some inode)
    (target : Path) :
    ∃ fs', fs.rename source target = some fs' ∧ fs'.data = fs.data ∧
      fs'.entries = Function.update (Function.update fs.entries source none) target (some inode) := by
  unfold rename
  split
  · rename_i hnone
    rw [h] at hnone
    cases hnone
  · rename_i inode' hsome
    rw [h, Option.some.injEq] at hsome
    subst hsome
    exact ⟨_, rfl, rfl, rfl⟩

/-- A fresh copy written under a temporary name and renamed over the target takes the
target's place and leaves every file but these two alone. -/
theorem replace_spec (fs : FileSystem) (tmp path : Path) (bytes : Bytes) :
    ∃ fs', ((((fs.create tmp).1.append (fs.create tmp).2 bytes).sync (fs.create tmp).2).rename tmp path) = some fs' ∧
      fs'.read path = some bytes ∧ fs'.entries path = some (fs.create tmp).2 ∧
      ∀ other, other ≠ tmp → other ≠ path →
        fs'.entries other = fs.entries other ∧ fs'.read other = fs.read other := by
  have htmp : ((fs.create tmp).1.append (fs.create tmp).2 bytes).entries tmp = some (fs.create tmp).2 :=
    fs.create_entries_self tmp
  have hsynced := (sync_entries _ (fs.create tmp).2).symm ▸ htmp
  obtain ⟨fs', hrename, hdata, hentries⟩ := rename_of_entries hsynced path
  refine ⟨fs', hrename, ?_, by rw [hentries, Function.update_self], fun other hother hother' => ?_⟩
  · rw [read, hentries, Function.update_self, Option.map_some, hdata, sync_data, append_data_self,
      create_data_self, List.nil_append]
  · have hsame : fs'.entries other = fs.entries other := by
      rw [hentries, Function.update_of_ne hother', Function.update_of_ne hother]
      exact fs.create_entries_of_ne hother
    refine ⟨hsame, ?_⟩
    rw [← fs.create_read_of_ne hother,
      ← append_read_of_ne (fs.create_entries_self tmp) hother bytes, read, read, hsame, hdata]
    rw [append_entries, fs.create_entries_of_ne hother]
    rfl

end FileSystem

end rust.fs
