import YtWebsub.Api
import YtWebsub.Renew

open rust rust.utf8 rust.text
open yt_websub.renew

namespace yt_websub.api

/-- Every entry that the scanner finds is trimmed and not empty. -/
theorem mem_scan_literals {current : Option Text} {text s : Text} (h : s ∈ scan_literals current text) :
    trim s = s ∧ s ≠ [] := by
  have hpush : ∀ {literal : Text} {out : List Text}, s ∈ push_literal literal out → s ∈ out ∨ trim s = s ∧ s ≠ [] := by
    intro literal out hmem
    unfold push_literal at hmem
    split at hmem
    · exact Or.inl hmem
    · rename_i hne
      obtain rfl | hout := List.mem_cons.mp hmem
      · exact Or.inr ⟨trim_trim _, hne⟩
      · exact Or.inl hout
  fun_induction scan_literals current text with
  | case1 => cases h
  | case2 cs ih => exact ih h
  | case3 c cs hc ih => exact ih h
  | case4 literal => exact (hpush h).resolve_left List.not_mem_nil
  | case5 literal c cs ih => exact ih h
  | case6 literal => exact (hpush h).resolve_left List.not_mem_nil
  | case7 literal cs ih => exact (hpush h).elim ih id
  | case8 literal c cs _ _ _ ih => exact ih h

theorem mem_extract_string_array {text s : Text} (h : s ∈ extract_string_array text) : trim s = s ∧ s ≠ [] := by
  unfold extract_string_array at h
  split at h
  · cases h
  · exact mem_scan_literals h

/-- A safe entry contains no ASCII control character. -/
theorem not_mem_of_is_safe_channel_entry {s : Text} (h : is_safe_channel_entry s = true) {c : Char}
    (hc : c.toNat < 0x20) : c ∉ s := by
  intro hmem
  obtain ⟨_, hall⟩ := Bool.and_eq_true_iff.mp h
  have hbyte : UInt8.ofNat c.toNat ∈ encode s := by
    refine List.mem_flatMap.mpr ⟨c, hmem, ?_⟩
    rw [encodeChar_ascii (by omega)]
    exact List.mem_singleton_self _
  have hsafe := List.all_eq_true.mp hall _ hbyte
  simp only [Bool.and_eq_true, decide_eq_true_eq, UInt8.le_iff_toNat_le, UInt8.toNat_ofNat'] at hsafe
  have hval : (0x20 : UInt8).toNat = 32 := rfl
  omega

/-- The comment and blank lines of a channels file. -/
def comments (content : Text) : List Text :=
  (strLines content).filter is_comment

/-- What the API writes and what `desired_set` reads agree, for the entries of a request
and an existing file. -/
structure Agrees (existing : Text) (channels : List Text) : Prop where
  entries : active_lines (render_channels_file (some (encode existing)) channels) = channels
  comments : comments (render_channels_file (some (encode existing)) channels) = comments existing
  again : render_channels_file (some (encode (render_channels_file (some (encode existing)) channels))) channels =
    render_channels_file (some (encode existing)) channels

/-- No entry looks like a comment, and no comment or blank line ends in a carriage return
beside its line ending. -/
def Plain (existing : Text) (channels : List Text) : Prop :=
  (∀ channel ∈ channels, channel.head? ≠ some '#') ∧
    ∀ line ∈ strLines existing, is_comment line = true → line.getLast? ≠ some '\r'

instance (existing : Text) (channels : List Text) : Decidable (Plain existing channels) :=
  inferInstanceAs (Decidable (_ ∧ _))

theorem render_eq (existing : Text) (channels : List Text) :
    render_channels_file (some (encode existing)) channels =
      (comments existing ++ channels).flatMap fun line => line ++ ['\n'] := by
  rw [render_channels_file, Option.bind_some, decode_encode]
  rfl

theorem is_comment_reread (line : Text) : is_comment (reread line) = is_comment line := by
  rw [is_comment, is_comment, trim_reread]

/-- An entry counts as a comment exactly when it begins like one. -/
theorem is_comment_entry {channel : Text} (htrim : trim channel = channel) (hne : channel ≠ []) :
    is_comment channel = true ↔ channel.head? = some '#' := by
  rw [is_comment, htrim]
  cases channel with
  | nil => exact absurd rfl hne
  | cons c cs =>
    simp only [reduceCtorEq, decide_false, Bool.false_or, List.isPrefixOf, Bool.and_true, beq_iff_eq, List.head?_cons,
      Option.some.injEq]
    exact eq_comm

/-- The lines of what is written: the comments as they are read back, then the entries. -/
theorem strLines_render (existing : Text) {channels : List Text}
    (hsafe : ∀ channel ∈ channels, is_safe_channel_entry channel = true) :
    strLines (render_channels_file (some (encode existing)) channels) =
      (comments existing).map reread ++ channels := by
  have hentries : channels.map reread = channels := by
    refine (List.map_congr_left fun channel hchannel => ?_).trans (List.map_id _)
    apply reread_of_last_ne
    intro hcr
    exact not_mem_of_is_safe_channel_entry (hsafe channel hchannel) (by decide) (List.mem_of_getLast? hcr)
  rw [render_eq, strLines_flatMap, List.map_append, hentries]
  intro line hline
  obtain hcomment | hchannel := List.mem_append.mp hline
  · exact not_mem_of_mem_strLines (List.mem_of_mem_filter hcomment)
  · exact not_mem_of_is_safe_channel_entry (hsafe line hchannel) (by decide)

/-- The comments of what is written: the old ones as they are read back, and every entry
that begins like one. -/
theorem comments_render (existing : Text) {channels : List Text}
    (hsafe : ∀ channel ∈ channels, is_safe_channel_entry channel = true) :
    comments (render_channels_file (some (encode existing)) channels) =
      (comments existing).map reread ++ channels.filter is_comment := by
  rw [comments, strLines_render existing hsafe, List.filter_append]
  congr 1
  apply List.filter_eq_self.mpr
  intro line hline
  obtain ⟨comment, hcomment, rfl⟩ := List.mem_map.mp hline
  rw [is_comment_reread]
  exact (List.mem_filter.mp hcomment).2

/-- The entries of what is written: those that do not begin like a comment. -/
theorem active_lines_render (existing : Text) {channels : List Text}
    (hsafe : ∀ channel ∈ channels, is_safe_channel_entry channel = true)
    (htrim : ∀ channel ∈ channels, trim channel = channel) :
    active_lines (render_channels_file (some (encode existing)) channels) =
      channels.filter fun channel => !is_comment channel := by
  have hactive : ∀ content,
      active_lines content = ((strLines content).filter fun line => !is_comment line).map trim := by
    intro content
    rw [active_lines, List.filter_map]
    rfl
  rw [hactive, strLines_render existing hsafe, List.filter_append, List.map_append]
  have hnone : ((comments existing).map reread).filter (fun line => !is_comment line) = [] := by
    apply List.filter_eq_nil_iff.mpr
    intro line hline
    obtain ⟨comment, hcomment, rfl⟩ := List.mem_map.mp hline
    rw [is_comment_reread, (List.mem_filter.mp hcomment).2]
    exact Bool.false_ne_true
  rw [hnone, List.map_nil, List.nil_append]
  exact (List.map_congr_left fun channel hchannel => htrim channel (List.mem_of_mem_filter hchannel)).trans
    (List.map_id _)

/-- What the API writes is what a reconcile reads, exactly when no entry begins with `#`
and no comment or blank line ends in a second carriage return. -/
theorem written_read_iff (existing body : Text) :
    Agrees existing (channels_of body) ↔ Plain existing (channels_of body) := by
  have hproduced : ∀ channel ∈ channels_of body,
      is_safe_channel_entry channel = true ∧ trim channel = channel ∧ channel ≠ [] := by
    intro channel hchannel
    obtain ⟨hmem, hsafe⟩ := List.mem_filter.mp hchannel
    exact ⟨hsafe, mem_extract_string_array hmem⟩
  generalize channels_of body = channels at hproduced
  have hsafe := fun channel hchannel => (hproduced channel hchannel).1
  have hcomment : ∀ channel ∈ channels, is_comment channel = true ↔ channel.head? = some '#' :=
    fun channel hchannel => is_comment_entry (hproduced channel hchannel).2.1 (hproduced channel hchannel).2.2
  have hentries := active_lines_render existing hsafe fun channel hchannel => (hproduced channel hchannel).2.1
  have hcomments := comments_render existing hsafe
  constructor
  · intro h
    have hplain : ∀ channel ∈ channels, channel.head? ≠ some '#' := by
      intro channel hchannel hhash
      have hactive := List.filter_eq_self.mp (hentries.symm.trans h.entries) channel hchannel
      rw [(hcomment channel hchannel).mpr hhash] at hactive
      cases hactive
    refine ⟨hplain, fun line hline hcommented => ?_⟩
    have hnone : channels.filter is_comment = [] :=
      List.filter_eq_nil_iff.mpr fun channel hchannel => (hcomment channel hchannel).not.mpr (hplain channel hchannel)
    have hsame := hcomments.symm.trans h.comments
    rw [hnone, List.append_nil] at hsame
    exact reread_eq_iff.mp (List.map_inj_left.mp (hsame.trans (List.map_id _).symm) line
      (List.mem_filter.mpr ⟨hline, hcommented⟩))
  · rintro ⟨hplain, hreturn⟩
    have hnone : channels.filter is_comment = [] :=
      List.filter_eq_nil_iff.mpr fun channel hchannel => (hcomment channel hchannel).not.mpr (hplain channel hchannel)
    have hsame : (comments existing).map reread = comments existing := by
      refine (List.map_congr_left fun line hline => ?_).trans (List.map_id _)
      obtain ⟨hline, hcommented⟩ := List.mem_filter.mp hline
      exact reread_of_last_ne (hreturn line hline hcommented)
    rw [hnone, hsame, List.append_nil] at hcomments
    refine ⟨?_, hcomments, by rw [render_eq, hcomments, ← render_eq]⟩
    rw [hentries]
    apply List.filter_eq_self.mpr
    intro channel hchannel
    rw [Bool.not_eq_true', Bool.eq_false_iff]
    exact (hcomment channel hchannel).not.mpr (hplain channel hchannel)

example : Plain "# mine\n\nUColdoldoldoldoldoldold0\n".toList
    (channels_of "\x7b\"channels\":[\" UCnewnewnewnewnewnewnew0\"]\x7d".toList) := by
  decide +kernel

/-- An entry that begins with `#` is written as one, and read as a comment ever after. -/
theorem hash_entry_unread :
    ¬ Agrees [] (channels_of "\x7b\"channels\":[\"#handle\"]\x7d".toList) := fun h =>
  absurd h.entries (by decide +kernel)

end yt_websub.api
