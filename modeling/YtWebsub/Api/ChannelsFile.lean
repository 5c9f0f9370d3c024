import YtWebsub.Api
import YtWebsub.Base.Machine
import YtWebsub.Util

open rust rust.utf8 rust.text rust.fs
open yt_websub.util

namespace yt_websub.api.channels_file

def channels_path : Path := "channels.txt".toList

/-- The temporary name that every `write_atomic` of the channels file uses. -/
def channels_tmp : Path := with_extension channels_path "tmp".toList

theorem channels_tmp_ne : channels_tmp ≠ channels_path := by
  decide

/-- How far a POST has come with `write_atomic`. -/
inductive Phase where
  | rendered
  /-- The temporary file is open as this inode; so many bytes went through the handle. -/
  | writing (file written : Nat)
  | synced (file : Nat)
  | replaced
  /-- The rename returned an error. -/
  | failed

/-- A POST that has its content and has not renamed it into place may be anywhere
between its `File::create` and its `fs::rename`. -/
def Phase.InProgress : Phase → Prop
  | .writing _ _ => True
  | .synced _ => True
  | _ => False

instance : DecidablePred Phase.InProgress
  | .rendered => isFalse id
  | .writing _ _ => isTrue trivial
  | .synced _ => isTrue trivial
  | .replaced => isFalse id
  | .failed => isFalse id

structure Post where
  /-- What `render_channels_file` returned. -/
  content : Bytes
  phase : Phase

/-- The workers share the file system; `reads` lists what every read of the channels
file has returned. -/
structure Workers where
  fs : FileSystem
  posts : List Post
  reads : List (Option Bytes)

def Workers.init (fs : FileSystem) : Workers where
  fs := fs
  posts := []
  reads := []

inductive Action where
  /-- A POST arrives and is rendered, which reads the file. -/
  | post (received : Bytes)
  | create (i : Nat)
  /-- `write_all` goes on with at most `n + 1` more bytes. -/
  | write (i n : Nat)
  | sync (i : Nat)
  | rename (i : Nat)
  /-- `desired_set` reads the file. -/
  | read

def Workers.setPost (s : Workers) (i : Nat) (content : Bytes) (phase : Phase) : Workers :=
  { s with posts := s.posts.set i { content, phase } }

def step (s : Workers) : Action → Option Workers
  | .post received =>
    let existing := s.fs.read channels_path
    let content := encode (render_channels_file existing (channels_of (read_body received)))
    some { s with posts := s.posts ++ [{ content, phase := .rendered }], reads := s.reads ++ [existing] }
  | .create i =>
    match s.posts[i]? with
    | some { content, phase := .rendered } =>
      let (fs, file) := s.fs.create channels_tmp
      some ({ s with fs }.setPost i content (.writing file 0))
    | _ => none
  | .write i n =>
    match s.posts[i]? with
    | some { content, phase := .writing file written } =>
      let bytes := (content.drop written).take (n + 1)
      if bytes = [] then none
      else
        some ({ s with fs := s.fs.writeAt file written bytes }.setPost i content
          (.writing file (written + bytes.length)))
    | _ => none
  | .sync i =>
    match s.posts[i]? with
    | some { content, phase := .writing file written } =>
      if written = content.length then some ({ s with fs := s.fs.sync file }.setPost i content (.synced file))
      else none
    | _ => none
  | .rename i =>
    match s.posts[i]? with
    | some { content, phase := .synced _ } =>
      match s.fs.rename channels_tmp channels_path with
      | some fs => some ({ s with fs }.setPost i content .replaced)
      | none => some (s.setPost i content .failed)
    | _ => none
  | .read => some { s with reads := s.reads ++ [s.fs.read channels_path] }

/-- No POST opens the temporary file while another has it open and not yet renamed. -/
def Exclusive (s : Workers) : Action → Prop
  | .create _ => ∀ post ∈ s.posts, ¬ post.phase.InProgress
  | _ => True

def Workers.contents (s : Workers) : List Bytes :=
  s.posts.map Post.content

/-- What was there at the start, or the complete content of one of the POSTs. -/
def Complete (initial : Option Bytes) (contents : List Bytes) (bytes : Option Bytes) : Prop :=
  bytes = initial ∨ ∃ content ∈ contents, bytes = some content

theorem Complete.append {initial : Option Bytes} {contents : List Bytes} {bytes : Option Bytes}
    (h : Complete initial contents bytes) (more : List Bytes) : Complete initial (contents ++ more) bytes :=
  h.imp_right fun ⟨content, hmem, heq⟩ => ⟨content, List.mem_append_left more hmem, heq⟩

/-- What the temporary file holds for a POST in progress. -/
def Progress (fs : FileSystem) (post : Post) : Prop :=
  match post.phase with
  | .writing file written =>
    fs.entries channels_tmp = some file ∧ fs.data file = post.content.take written ∧ written ≤ post.content.length
  | .synced file => fs.entries channels_tmp = some file ∧ fs.data file = post.content
  | _ => True

theorem progress_of_not_inProgress {fs : FileSystem} {post : Post} (h : ¬ post.phase.InProgress) :
    Progress fs post := by
  obtain ⟨content, phase⟩ := post
  cases phase with
  | rendered => trivial
  | writing file written => exact absurd trivial h
  | synced file => exact absurd trivial h
  | replaced => trivial
  | failed => trivial

/-- What exclusive use of the temporary name keeps. -/
structure Guarded (initial : Option Bytes) (s : Workers) : Prop where
  file : Complete initial s.contents (s.fs.read channels_path)
  reads : ∀ bytes ∈ s.reads, Complete initial s.contents bytes
  progress : ∀ post ∈ s.posts, Progress s.fs post
  alone : ∀ (i j : Nat) (p q : Post), s.posts[i]? = some p → s.posts[j]? = some q → p.phase.InProgress →
    q.phase.InProgress → i = j

theorem Guarded.init (fs : FileSystem) : Guarded (fs.read channels_path) (.init fs) where
  file := Or.inl rfl
  reads := by simp [Workers.init]
  progress := by simp [Workers.init]
  alone := by simp [Workers.init]

theorem setPost_contents {s : Workers} {i : Nat} {post : Post} (hi : s.posts[i]? = some post) (phase : Phase) :
    (s.setPost i post.content phase).contents = s.contents := by
  obtain ⟨hlt, hget⟩ := List.getElem?_eq_some_iff.mp hi
  simp only [Workers.contents, Workers.setPost, List.map_set]
  rw [← hget, ← List.getElem_map Post.content (h := by simpa using hlt), List.set_getElem_self]

/-- One POST takes a step on the file system; no other is in progress. -/
theorem Guarded.setPost {initial : Option Bytes} {s : Workers} (h : Guarded initial s) {i : Nat} {post : Post}
    (hi : s.posts[i]? = some post)
    (halone : ∀ (j : Nat) (q : Post), s.posts[j]? = some q → q.phase.InProgress → j = i)
    {fs : FileSystem} (hfile : Complete initial s.contents (fs.read channels_path)) {phase : Phase}
    (hprogress : Progress fs { content := post.content, phase }) :
    Guarded initial ({ s with fs }.setPost i post.content phase) := by
  have hcontents : ({ s with fs }.setPost i post.content phase).contents = s.contents :=
    setPost_contents (s := { s with fs }) hi phase
  have hother : ∀ (j : Nat) (q : Post), (s.posts.set i { content := post.content, phase })[j]? = some q →
      q.phase.InProgress → j = i := by
    intro j q hj hq
    rw [List.getElem?_set] at hj
    split at hj
    · rename_i hij
      exact hij.symm
    · exact halone j q hj hq
  refine ⟨?_, ?_, ?_, ?_⟩
  · rw [hcontents]
    exact hfile
  · rw [hcontents]
    exact h.reads
  · intro q hq
    obtain ⟨j, hj⟩ := List.mem_iff_getElem?.mp hq
    by_cases hin : q.phase.InProgress
    · obtain rfl := hother j q hj hin
      rw [Workers.setPost, List.getElem?_set] at hj
      simp only [if_true] at hj
      split at hj
      · rw [Option.some.injEq] at hj
        exact hj ▸ hprogress
      · cases hj
    · exact progress_of_not_inProgress hin
  · intro j k p q hj hk hp hq
    exact (hother j p hj hp).trans (hother k q hk hq).symm

theorem Guarded.halone {initial : Option Bytes} {s : Workers} (h : Guarded initial s) {i : Nat} {post : Post}
    (hi : s.posts[i]? = some post) (hin : post.phase.InProgress) :
    ∀ (j : Nat) (q : Post), s.posts[j]? = some q → q.phase.InProgress → j = i :=
  fun j q hj hq => h.alone j i q post hj hi hq hin

theorem Guarded.post {initial : Option Bytes} {s s' : Workers} (h : Guarded initial s) {received : Bytes}
    (hstep : step s (.post received) = some s') : Guarded initial s' := by
  simp only [step, Option.some.injEq] at hstep
  subst hstep
  refine ⟨?_, ?_, ?_, ?_⟩
  · rw [Workers.contents, List.map_append]
    exact h.file.append _
  · intro bytes hbytes
    rw [Workers.contents, List.map_append]
    obtain hold | hnew := List.mem_append.mp hbytes
    · exact (h.reads bytes hold).append _
    · rw [List.mem_singleton.mp hnew]
      exact h.file.append _
  · intro post hpost
    obtain hold | hnew := List.mem_append.mp hpost
    · exact h.progress post hold
    · rw [List.mem_singleton.mp hnew]
      trivial
  · intro i j p q hi hj hp hq
    have hold : ∀ (content : Bytes) (k : Nat) (r : Post),
        (s.posts ++ [(⟨content, .rendered⟩ : Post)])[k]? = some r → r.phase.InProgress → s.posts[k]? = some r := by
      intro content k r hk hr
      rw [List.getElem?_append] at hk
      split at hk
      · exact hk
      · have hmem := List.mem_singleton.mp (List.mem_of_getElem? hk)
        rw [hmem] at hr
        exact absurd hr id
    exact h.alone i j p q (hold _ i p hi hp) (hold _ j q hj hq) hp hq

theorem Guarded.create {initial : Option Bytes} {s s' : Workers} (h : Guarded initial s) {i : Nat}
    (hexclusive : Exclusive s (.create i)) (hstep : step s (.create i) = some s') : Guarded initial s' := by
  simp only [step] at hstep
  split at hstep
  · rename_i content hi
    simp only [Option.some.injEq] at hstep
    subst hstep
    refine h.setPost hi ?_ ?_ ?_
    · intro j q hj hq
      exact absurd hq (hexclusive q (List.mem_of_getElem? hj))
    · rw [FileSystem.create_read_of_ne _ channels_tmp_ne.symm]
      exact h.file
    · exact ⟨FileSystem.create_entries_self _ _, FileSystem.create_data_self _ _, Nat.zero_le _⟩
  · cases hstep

theorem Guarded.write {initial : Option Bytes} {s s' : Workers} (h : Guarded initial s) {i n : Nat}
    (hstep : step s (.write i n) = some s') : Guarded initial s' := by
  simp only [step] at hstep
  split at hstep
  · rename_i content file written hi
    split at hstep
    · cases hstep
    simp only [Option.some.injEq] at hstep
    subst hstep
    obtain ⟨hentry, hdata, hle⟩ := h.progress _ (List.mem_of_getElem? hi)
    have hlen : (s.fs.data file).length = written := by
      rw [hdata, List.length_take, Nat.min_eq_left hle]
    have hwrite := s.fs.writeAt_end file ((content.drop written).take (n + 1))
    rw [hlen] at hwrite
    rw [hwrite]
    refine h.setPost hi (h.halone hi trivial) ?_ ⟨hentry, ?_, ?_⟩
    · rw [FileSystem.append_read_of_ne hentry channels_tmp_ne.symm]
      exact h.file
    · have hchunk := List.prefix_iff_eq_take.mp (List.take_prefix (n + 1) (content.drop written))
      dsimp only at hdata ⊢
      conv_lhs => rw [FileSystem.append_data_self, hdata, hchunk]
      exact List.take_add.symm
    · dsimp only at hle ⊢
      rw [List.length_take, List.length_drop]
      omega
  · cases hstep

theorem Guarded.sync {initial : Option Bytes} {s s' : Workers} (h : Guarded initial s) {i : Nat}
    (hstep : step s (.sync i) = some s') : Guarded initial s' := by
  simp only [step] at hstep
  split at hstep
  · rename_i content file written hi
    split at hstep
    · rename_i hall
      simp only [Option.some.injEq] at hstep
      subst hstep
      obtain ⟨hentry, hdata, _⟩ := h.progress _ (List.mem_of_getElem? hi)
      refine h.setPost hi (h.halone hi trivial) ?_ ⟨hentry, ?_⟩
      · rw [FileSystem.sync_read]
        exact h.file
      · rw [FileSystem.sync_data, hdata, hall, List.take_length]
    · cases hstep
  · cases hstep

theorem Guarded.rename {initial : Option Bytes} {s s' : Workers} (h : Guarded initial s) {i : Nat}
    (hstep : step s (.rename i) = some s') : Guarded initial s' := by
  simp only [step] at hstep
  split at hstep
  · rename_i content file hi
    obtain ⟨hentry, hdata⟩ := h.progress _ (List.mem_of_getElem? hi)
    obtain ⟨fs, hrename, hkept, hentries⟩ := FileSystem.rename_of_entries hentry channels_path
    simp only [hrename, Option.some.injEq] at hstep
    subst hstep
    refine h.setPost hi (h.halone hi trivial) (Or.inr ⟨content, ?_, ?_⟩) trivial
    · exact List.mem_map_of_mem (List.mem_of_getElem? hi)
    · rw [FileSystem.read, hentries, Function.update_self, Option.map_some, hkept, hdata]
  · cases hstep

theorem step_guarded {initial : Option Bytes} {s s' : Workers} {a : Action} (h : Guarded initial s)
    (hexclusive : Exclusive s a) (hstep : step s a = some s') : Guarded initial s' := by
  cases a with
  | post received => exact h.post hstep
  | create i => exact h.create hexclusive hstep
  | write i n => exact h.write hstep
  | sync i => exact h.sync hstep
  | rename i => exact h.rename hstep
  | read =>
    simp only [step, Option.some.injEq] at hstep
    subst hstep
    refine ⟨h.file, fun bytes hbytes => ?_, h.progress, h.alone⟩
    obtain hold | hnew := List.mem_append.mp hbytes
    · exact h.reads bytes hold
    · rw [List.mem_singleton.mp hnew]
      exact h.file

/-- Channel-list writes are atomic to readers in every run in which no two of them have
the temporary file open at the same time. -/
theorem reads_complete {fs : FileSystem} {s : Workers} {actions : List Action}
    (hrun : machine.Run step (.init fs) actions s) (hexclusive : machine.Along step Exclusive (.init fs) actions) :
    ∀ bytes ∈ s.reads, Complete (fs.read channels_path) s.contents bytes :=
  (hrun.invariant_along (Guarded (fs.read channels_path)) (fun _ _ _ => step_guarded) hexclusive (.init fs)).reads

/-- A channels file with one channel in it. -/
def oneChannel : FileSystem :=
  (FileSystem.empty.openAppend channels_path).1.append 0 (encode "UCabcdefghijklmnopqrstuv\n".toList)

def handlesBody : Bytes :=
  encode "\x7b\"channels\":[\"@a\",\"@b\"]\x7d".toList

/-- Two requests, one after the other, and a read. -/
def oneByOne : List Action :=
  [.post handlesBody, .create 0, .write 0 2, .write 0 10, .sync 0, .rename 0,
    .post (encode "\x7b\"channels\":[]\x7d".toList), .create 1, .sync 1, .read, .rename 1, .read]

theorem reads_complete_one_by_one :
    ∃ s, machine.Run step (.init oneChannel) oneByOne s ∧
      s.reads.map (Option.map decode) = [some (some "UCabcdefghijklmnopqrstuv\n".toList), some (some "@a\n@b\n".toList),
        some (some "@a\n@b\n".toList), some (some [])] ∧
      ∀ bytes ∈ s.reads, Complete (oneChannel.read channels_path) s.contents bytes := by
  have hexclusive : machine.Along step Exclusive (.init oneChannel) oneByOne := by
    refine .cons trivial rfl (.cons ?_ rfl (.cons trivial rfl (.cons trivial rfl (.cons trivial rfl
      (.cons trivial rfl (.cons trivial rfl (.cons ?_ rfl (.cons trivial rfl (.cons trivial rfl
      (.cons trivial rfl (.cons trivial rfl trivial)))))))))))
    all_goals
      simp only [Exclusive]
      decide +kernel
  exact ⟨_, rfl, by decide +kernel, reads_complete (show machine.Run step (.init oneChannel) oneByOne _ from rfl)
    hexclusive⟩

/-- The second request truncates the file that the first is about to rename. -/
def overlapping : List Action :=
  [.post handlesBody, .post handlesBody, .create 0, .write 0 10, .sync 0, .create 1, .rename 0, .read]

theorem empty_file_read :
    ∃ s, machine.Run step (.init oneChannel) overlapping s ∧ some [] ∈ s.reads ∧
      ¬ Complete (oneChannel.read channels_path) s.contents (some []) := by
  refine ⟨_, rfl, by decide +kernel, ?_⟩
  rintro (hinitial | ⟨content, hcontent, hempty⟩)
  · revert hinitial
    decide +kernel
  · rw [Option.some.injEq] at hempty
    subst hempty
    revert hcontent
    decide +kernel

end yt_websub.api.channels_file
