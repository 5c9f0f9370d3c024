import YtWebsub.Renew
import YtWebsub.Resolve.Allowlist

open rust rust.utf8 rust.text rust.map
open yt_websub.resolve

namespace yt_websub.renew

/-- The loop body of `load_cache`: a row without a tab is skipped, and the last row of a key wins. -/
def load_row (m : HashMap Text Text) (line : Text) : HashMap Text Text :=
  match split_once ['\t'] line with
  | some (k, v) => m.insert k v
  | none => m

/-- `content` is what reading `resolve.cache` gave, if it could be read. -/
def load_cache (content : Option Bytes) : HashMap Text Text :=
  ((content.bind decode).elim [] strLines).foldl load_row ∅

abbrev Row := Sigma fun _ : Text => Text

def save_row (row : Row) : Text :=
  row.1 ++ '\t' :: row.2

/-- What `save_cache` writes when the entries come in this order. -/
def save_cache (order : List Row) : Bytes :=
  encode (order.flatMap fun row => save_row row ++ ['\n'])

/-- The caches of the process: loaded at start, and changed by `desired_set` only. -/
inductive Reachable : HashMap Text Text → Prop where
  | load (content : Option Bytes) : Reachable (load_cache content)
  | desired {live : HashMap Text Text} (content : Option Bytes) (fetch : Nat → Text → Option Bytes)
    (h : Reachable live) : Reachable (desired_set content fetch live).2.2

/-- The local copy after these lines. -/
def caches (fetch : Nat → Text → Option Bytes) : Nat → List Text → HashMap Text Text → HashMap Text Text
  | _, [], cache => cache
  | i, line :: lines, cache => caches fetch (i + 1) lines (resolve (fetch i) line cache).2

/-- The line after `before` is resolved by fetching its page. -/
def Fetched (fetch : Nat → Text → Option Bytes) (live : HashMap Text Text) (before : List Text) (line uc : Text) :
    Prop :=
  requests (fetch before.length) line (caches fetch 0 before live) ≠ [] ∧
    (resolve (fetch before.length) line (caches fetch 0 before live)).1 = some uc

/-- The entry resolves to the channel without a fetch. -/
def Kept (line uc : Text) (cache : HashMap Text Text) : Prop :=
  ∀ fetch, resolve fetch line cache = (some uc, cache) ∧ requests fetch line cache = []

/-- What the cache has for a key, where `resolve` trusts it. -/
def cached (cache : HashMap Text Text) (key : Text) : Option Text :=
  (cache.lookup key).filter is_channel_id

/-- An entry that is resolved through its page or the cache. -/
structure Fetchable (key : Text) : Prop where
  nonempty : key ≠ []
  not_id : is_channel_id key = false
  unmarked : extract_uc key = none
  allowed : is_allowed_url (normalize_url key) = true

/-- A page is fetched exactly for such an entry, when nothing trusted is cached for it. -/
theorem requests_ne_nil_iff {fetch : Text → Option Bytes} {line : Text} {cache : HashMap Text Text} :
    requests fetch line cache ≠ [] ↔ Fetchable (trim line) ∧ cached cache (trim line) = none := by
  unfold requests resolve_with cached
  dsimp only
  by_cases hempty : trim line = []
  · exact iff_of_false (by simp [hempty]) fun h => h.1.nonempty hempty
  by_cases hid : is_channel_id (trim line) = true
  · exact iff_of_false (by simp [hempty, hid]) fun h => absurd (hid.symm.trans h.1.not_id) (by simp)
  cases hextract : extract_uc (trim line) with
  | some uc =>
    exact iff_of_false (by simp [hempty, hid]) fun h => absurd (hextract.symm.trans h.1.unmarked) (by simp)
  | none =>
    cases hcached : (cache.lookup (trim line)).filter is_channel_id with
    | some uc => exact iff_of_false (by simp [hempty, hid]) fun h => absurd h.2 (by simp)
    | none =>
      by_cases hallowed : is_allowed_url (normalize_url (trim line)) = true
      · refine iff_of_true ?_ ⟨⟨hempty, Bool.not_eq_true _ ▸ hid, hextract, hallowed⟩, rfl⟩
        cases hpage : (page (fetch (normalize_url (trim line)))).bind extract_uc <;>
          simp [hempty, hid, hallowed, hpage, traced]
      · exact iff_of_false (by simp [hempty, hid, hallowed]) fun h => hallowed h.1.allowed

theorem resolve_cached {fetch : Text → Option Bytes} {line uc : Text} {cache : HashMap Text Text}
    (h : Fetchable (trim line)) (hcached : cached cache (trim line) = some uc) :
    resolve fetch line cache = (some uc, cache) := by
  rw [cached] at hcached
  simp [resolve, h.nonempty, h.not_id, h.unmarked, hcached]

/-- What the page of an entry gives. -/
def found (fetch : Text → Option Bytes) (key : Text) : Option Text :=
  (page (fetch (normalize_url key))).bind extract_uc

theorem resolve_fetched (fetch : Text → Option Bytes) {line : Text} {cache : HashMap Text Text}
    (h : Fetchable (trim line)) (hcached : cached cache (trim line) = none) :
    resolve fetch line cache = match found fetch (trim line) with
      | some uc => (some uc, cache.insert (trim line) uc)
      | none => (none, cache) := by
  rw [cached] at hcached
  cases hfound : found fetch (trim line) with
  | none =>
    rw [found] at hfound
    simp [resolve, h.nonempty, h.not_id, h.unmarked, hcached, h.allowed, hfound]
  | some uc =>
    rw [found] at hfound
    simp [resolve, h.nonempty, h.not_id, h.unmarked, hcached, h.allowed, hfound]

theorem resolve_unfetched {fetch : Text → Option Bytes} {line : Text} {cache : HashMap Text Text}
    (h : ¬ (Fetchable (trim line) ∧ cached cache (trim line) = none)) : (resolve fetch line cache).2 = cache := by
  unfold resolve
  dsimp only
  split
  · rfl
  rename_i hempty
  split
  · rfl
  rename_i hid
  split
  · rfl
  · rfl
  · rename_i hextract hcached
    split
    · rename_i hallowed
      exact absurd ⟨⟨hempty, Bool.not_eq_true _ ▸ hid, hextract, hallowed⟩, hcached⟩ h
    · rfl

/-- What one entry does to the cache: only a page adds to it, and only where nothing trusted stands. -/
theorem resolve_cache_cases (fetch : Text → Option Bytes) (line : Text) (cache : HashMap Text Text) :
    (resolve fetch line cache).2 = cache ∨
      ∃ uc, Fetchable (trim line) ∧ cached cache (trim line) = none ∧ found fetch (trim line) = some uc ∧
        resolve fetch line cache = (some uc, cache.insert (trim line) uc) := by
  by_cases h : Fetchable (trim line) ∧ cached cache (trim line) = none
  · have hresolve := resolve_fetched fetch h.1 h.2
    cases hfound : found fetch (trim line) with
    | none =>
      rw [hfound] at hresolve
      exact Or.inl (congrArg Prod.snd hresolve)
    | some uc =>
      rw [hfound] at hresolve
      exact Or.inr ⟨uc, h.1, h.2, rfl, hresolve⟩
  · exact Or.inl (resolve_unfetched h)

/-- An entry is kept exactly where the cache has the channel for it. -/
theorem kept_iff {line uc : Text} {cache : HashMap Text Text} (h : Fetchable (trim line)) :
    Kept line uc cache ↔ cached cache (trim line) = some uc := by
  constructor
  · intro hkept
    obtain ⟨hanswer, hnone⟩ := hkept fun _ => none
    cases hcached : cached cache (trim line) with
    | none => exact absurd hnone (requests_ne_nil_iff.mpr ⟨h, hcached⟩)
    | some uc' =>
      rw [resolve_cached h hcached] at hanswer
      exact congrArg Prod.fst hanswer
  · intro hcached fetch
    refine ⟨resolve_cached h hcached, not_not.mp fun hfetched => ?_⟩
    rw [(requests_ne_nil_iff.mp hfetched).2] at hcached
    cases hcached

section Lines

variable {fetch : Nat → Text → Option Bytes}

theorem resolve_lines_cache (i : Nat) (lines : List Text) (cache : HashMap Text Text) (out : List Text)
    (complete : Bool) : (resolve_lines fetch i lines cache out complete).2.2 = caches fetch i lines cache := by
  fun_induction resolve_lines fetch i lines cache out complete with
  | case1 => rfl
  | case2 i line lines cache out complete uc cache' hresolve ih => rw [ih, caches, hresolve]
  | case3 i line lines cache out complete cache' hresolve ih => rw [ih, caches, hresolve]

theorem caches_append (i : Nat) (before after : List Text) (cache : HashMap Text Text) :
    caches fetch i (before ++ after) cache =
      caches fetch (i + before.length) after (caches fetch i before cache) := by
  induction before generalizing i cache with
  | nil => rfl
  | cons line before ih =>
    rw [List.cons_append, caches, ih, caches, List.length_cons, Nat.add_assoc, Nat.add_comm 1]

theorem cached_insert_ne {key key' value : Text} {cache : HashMap Text Text} (h : key' ≠ key) :
    cached (cache.insert key value) key' = cached cache key' := by
  rw [cached, AList.lookup_insert_ne h, cached]

theorem cached_of_not_mem {key : Text} {cache : HashMap Text Text} (h : key ∉ cache) : cached cache key = none := by
  rw [cached, AList.lookup_eq_none.mpr h, Option.filter_none]

/-- What is trusted stays, whatever is resolved after it. -/
theorem cached_caches (fetch : Nat → Text → Option Bytes) {key uc : Text} (i : Nat) (lines : List Text)
    {cache : HashMap Text Text} (h : cached cache key = some uc) :
    cached (caches fetch i lines cache) key = some uc := by
  induction lines generalizing i cache with
  | nil => exact h
  | cons line lines ih =>
    refine ih (i + 1) ?_
    obtain hsame | ⟨uc', _, hnone, _, hresolve⟩ := resolve_cache_cases (fetch i) line cache
    · rw [hsame]
      exact h
    · have hne : key ≠ trim line := by
        rintro rfl
        rw [h] at hnone
        cases hnone
      rw [hresolve, cached_insert_ne hne]
      exact h

/-- One of the lines has this key, and its page gives a channel. -/
def Served (fetch : Nat → Text → Option Bytes) (i : Nat) (lines : List Text) (key : Text) : Prop :=
  ∃ n line, lines[n]? = some line ∧ trim line = key ∧ (found (fetch (i + n)) key).isSome

theorem served_cons_iff {i : Nat} {line : Text} {lines : List Text} {key : Text} :
    Served fetch i (line :: lines) key ↔
      (trim line = key ∧ (found (fetch i) key).isSome) ∨ Served fetch (i + 1) lines key := by
  constructor
  · rintro ⟨n, line', hget, hkey, hfound⟩
    cases n with
    | zero =>
      rw [List.getElem?_cons_zero, Option.some.injEq] at hget
      exact Or.inl ⟨hget ▸ hkey, hfound⟩
    | succ n =>
      rw [List.getElem?_cons_succ] at hget
      exact Or.inr ⟨n, line', hget, hkey, by rwa [Nat.add_right_comm]⟩
  · rintro (⟨hkey, hfound⟩ | ⟨n, line', hget, hkey, hfound⟩)
    · exact ⟨0, line, rfl, hkey, hfound⟩
    · exact ⟨n + 1, line', hget, hkey, by rwa [Nat.add_right_comm] at hfound⟩

theorem mem_resolve_of_mem {fetch : Text → Option Bytes} {key : Text} {cache : HashMap Text Text} (h : key ∈ cache)
    (line : Text) : key ∈ (resolve fetch line cache).2 := by
  obtain hsame | ⟨uc, _, _, _, hresolve⟩ := resolve_cache_cases fetch line cache
  · exact hsame.symm ▸ h
  · rw [hresolve, AList.mem_insert]
    exact Or.inr h

/-- The keys that one entry leaves in the cache. -/
theorem mem_resolve_iff {fetch : Text → Option Bytes} {line key : Text} {cache : HashMap Text Text} :
    key ∈ (resolve fetch line cache).2 ↔
      key ∈ cache ∨ (Fetchable key ∧ trim line = key ∧ (found fetch key).isSome) := by
  constructor
  · intro hmem
    obtain hsame | ⟨uc, hfetchable, _, hfound, hresolve⟩ := resolve_cache_cases fetch line cache
    · exact Or.inl (hsame ▸ hmem)
    · rw [hresolve, AList.mem_insert] at hmem
      obtain rfl | hmem := hmem
      · exact Or.inr ⟨hfetchable, rfl, hfound ▸ rfl⟩
      · exact Or.inl hmem
  · rintro (hmem | ⟨hfetchable, rfl, hfound⟩)
    · exact mem_resolve_of_mem hmem line
    · by_cases hmem : trim line ∈ cache
      · exact mem_resolve_of_mem hmem line
      · obtain ⟨uc, huc⟩ := Option.isSome_iff_exists.mp hfound
        rw [resolve_fetched fetch hfetchable (cached_of_not_mem hmem), huc, AList.mem_insert]
        exact Or.inl rfl

/-- The keys of the local copy: those it began with, and those whose page gave a channel. -/
theorem mem_caches_iff {i : Nat} {lines : List Text} {cache : HashMap Text Text} {key : Text} :
    key ∈ caches fetch i lines cache ↔ key ∈ cache ∨ (Fetchable key ∧ Served fetch i lines key) := by
  induction lines generalizing i cache with
  | nil => simp [caches, Served]
  | cons line lines ih =>
    rw [caches, ih, mem_resolve_iff, served_cons_iff]
    tauto

end Lines

/-- An existing key keeps its value, and the other keys come from the local copy. -/
theorem lookup_merge_cache {live cache : HashMap Text Text} {key : Text} :
    (merge_cache live cache).lookup key = if key ∈ live then live.lookup key else cache.lookup key :=
  lookup_foldl_or_insert cache.entries live key

theorem mem_merge_cache {live cache : HashMap Text Text} {key : Text} :
    key ∈ merge_cache live cache ↔ key ∈ live ∨ key ∈ cache := by
  rw [← AList.lookup_isSome, lookup_merge_cache]
  split
  · rename_i hmem
    simp [hmem, AList.lookup_isSome]
  · rename_i hmem
    simp [hmem, AList.lookup_isSome]

/-- No key and no value spans two lines of the file. -/
def OneLine (cache : HashMap Text Text) : Prop :=
  ∀ key value, cache.lookup key = some value → '\n' ∉ key ∧ '\n' ∉ value

/-- A loaded value stands in a row of its key. -/
theorem lookup_load_rows {lines : List Text} {m : HashMap Text Text} {key value : Text}
    (h : (lines.foldl load_row m).lookup key = some value) :
    m.lookup key = some value ∨ ∃ line ∈ lines, split_once ['\t'] line = some (key, value) := by
  induction lines generalizing m with
  | nil => exact Or.inl h
  | cons line lines ih =>
    obtain hrow | ⟨line', hmem, hsplit⟩ := ih h
    · unfold load_row at hrow
      split at hrow
      · rename_i k v hsplit
        obtain ⟨rfl, rfl⟩ | ⟨_, hbefore⟩ := lookup_insert_eq_some.mp hrow
        · exact Or.inr ⟨line, List.mem_cons_self, hsplit⟩
        · exact Or.inl hbefore
      · exact Or.inl hrow
    · exact Or.inr ⟨line', List.mem_cons_of_mem _ hmem, hsplit⟩

/-- Where all rows of a key agree, that is its value. -/
theorem lookup_load_rows_of_agree {lines : List Text} {m : HashMap Text Text} {key value : Text}
    (hagree : ∀ line ∈ lines, ∀ v, split_once ['\t'] line = some (key, v) → v = value)
    (h : m.lookup key = some value ∨ ∃ line ∈ lines, split_once ['\t'] line = some (key, value)) :
    (lines.foldl load_row m).lookup key = some value := by
  induction lines generalizing m with
  | nil => exact h.resolve_right fun ⟨_, hmem, _⟩ => List.not_mem_nil hmem
  | cons line lines ih =>
    obtain ⟨hline, hlines⟩ := List.forall_mem_cons.mp hagree
    refine ih hlines ?_
    unfold load_row
    cases hsplit : split_once ['\t'] line with
    | none =>
      refine h.imp_right fun ⟨line', hmem, hrow⟩ => ?_
      obtain rfl | hmem := List.mem_cons.mp hmem
      · rw [hsplit] at hrow
        cases hrow
      · exact ⟨line', hmem, hrow⟩
    | some row =>
      obtain ⟨k, v⟩ := row
      by_cases hkey : key = k
      · subst hkey
        rw [hline v hsplit]
        exact Or.inl (AList.lookup_insert _)
      · refine h.imp (AList.lookup_insert_ne hkey).trans fun ⟨line', hmem, hrow⟩ => ?_
        obtain rfl | hmem := List.mem_cons.mp hmem
        · rw [hsplit, Option.some.injEq] at hrow
          exact absurd (Prod.mk.inj hrow).1.symm hkey
        · exact ⟨line', hmem, hrow⟩

theorem lookup_load_cache {content : Option Bytes} {key value : Text}
    (h : (load_cache content).lookup key = some value) :
    ∃ line ∈ (content.bind decode).elim [] strLines, split_once ['\t'] line = some (key, value) :=
  (lookup_load_rows h).resolve_left (by simp)

theorem not_mem_key_of_split {line key value : Text} (h : split_once ['\t'] line = some (key, value)) :
    '\t' ∉ key := by
  obtain ⟨hline, hfind⟩ := split_once_eq_some h
  have hfront := not_mem_take_find '\t' line
  rw [hfind, Option.getD_some] at hfront
  rwa [hline, List.take_left] at hfront

theorem load_cache_oneLine (content : Option Bytes) : OneLine (load_cache content) := by
  intro key value h
  obtain ⟨line, hmem, hsplit⟩ := lookup_load_cache h
  have hline : '\n' ∉ line := by
    cases hcontent : content.bind decode with
    | none =>
      rw [hcontent] at hmem
      cases hmem
    | some text =>
      rw [hcontent] at hmem
      exact not_mem_of_mem_strLines hmem
  rw [(split_once_eq_some hsplit).1] at hline
  simp only [List.mem_append, not_or] at hline
  exact ⟨hline.1, hline.2.2⟩

theorem not_newline_of_channel_id {uc : Text} (h : is_channel_id uc = true) : '\n' ∉ uc :=
  not_mem_of_all_isIdByte (is_channel_id_alphabet h) (by decide)

theorem caches_oneLine {fetch : Nat → Text → Option Bytes} {i : Nat} {lines : List Text} {cache : HashMap Text Text}
    (hlines : ∀ line ∈ lines, '\n' ∉ trim line) (h : OneLine cache) : OneLine (caches fetch i lines cache) := by
  induction lines generalizing i cache with
  | nil => exact h
  | cons line lines ih =>
    obtain ⟨hline, hlines⟩ := List.forall_mem_cons.mp hlines
    refine ih hlines ?_
    obtain hsame | ⟨uc, _, _, _, hresolve⟩ := resolve_cache_cases (fetch i) line cache
    · rw [hsame]
      exact h
    · have hvalid := resolve_valid (congrArg Prod.fst hresolve)
      rw [hresolve]
      intro key value hentry
      obtain ⟨rfl, rfl⟩ | ⟨_, hbefore⟩ := lookup_insert_eq_some.mp hentry
      · exact ⟨hline, not_newline_of_channel_id hvalid⟩
      · exact h key value hbefore

theorem not_mem_trim {c : Char} {s : Text} (h : c ∉ s) : c ∉ trim s := fun hmem =>
  h ((List.dropWhile_suffix _).subset ((List.rdropWhile_prefix _ _).subset hmem))

/-- The entries of the channels file, as `resolve` sees them. -/
theorem active_lines_spec {content line : Text} (h : line ∈ active_lines content) :
    trim line = line ∧ '\n' ∉ line := by
  obtain ⟨raw, hraw, rfl⟩ := List.mem_map.mp (List.mem_of_mem_filter h)
  exact ⟨trim_trim raw, not_mem_trim (not_mem_of_mem_strLines hraw)⟩

/-- The cache after `desired_set` has read these entries. -/
theorem desired_set_cache {content : Bytes} {text : Text} (h : decode content = some text)
    (fetch : Nat → Text → Option Bytes) (live : HashMap Text Text) :
    (desired_set (some content) fetch live).2.2 = merge_cache live (caches fetch 0 (active_lines text) live) := by
  rw [desired_set, Option.bind_some, h, ← resolve_lines_cache 0 (active_lines text) live [] true]

theorem desired_set_oneLine {live : HashMap Text Text} (content : Option Bytes) (fetch : Nat → Text → Option Bytes)
    (h : OneLine live) : OneLine (desired_set content fetch live).2.2 := by
  cases hcontent : content.bind decode with
  | none =>
    rw [desired_set, hcontent]
    exact h
  | some text =>
    obtain ⟨bytes, rfl, hdecode⟩ := Option.bind_eq_some_iff.mp hcontent
    have hlines : ∀ line ∈ active_lines text, '\n' ∉ trim line := fun line hline => by
      rw [(active_lines_spec hline).1]
      exact (active_lines_spec hline).2
    rw [desired_set_cache hdecode]
    intro key value hentry
    rw [lookup_merge_cache] at hentry
    split at hentry
    · exact h key value hentry
    · exact caches_oneLine hlines h key value hentry

theorem Reachable.oneLine {live : HashMap Text Text} (h : Reachable live) : OneLine live := by
  induction h with
  | load content => exact load_cache_oneLine content
  | desired content fetch _ ih => exact desired_set_oneLine content fetch ih

/-- Reading a row back can only shorten its value. -/
theorem reread_save_row (row : Row) : reread (save_row row) = row.1 ++ '\t' :: reread row.2 := by
  unfold save_row
  obtain ⟨hlast, hsame⟩ | hcr := reread_cases row.2
  · rw [hsame, reread_of_last_ne]
    rw [List.getLast?_append, List.getLast?_cons]
    cases hvalue : row.2.getLast? with
    | none => simp
    | some c =>
      rw [hvalue] at hlast
      simpa using hlast
  · conv_lhs => rw [hcr]
    rw [← List.cons_append, ← List.append_assoc, reread_concat_cr]

/-- A row as `load_cache` splits it: its key ends at the first tab. -/
theorem split_row {front : Text} (h : '\t' ∉ front) (rest : Text) :
    split_once ['\t'] (front ++ '\t' :: rest) = some (front, rest) := by
  rw [split_once, find_singleton h, Option.map_some, List.take_left]
  simp

/-- Loading what was saved, row by row. -/
theorem load_save_cache {order : List Row} (h : ∀ row ∈ order, '\n' ∉ row.1 ∧ '\n' ∉ row.2) :
    load_cache (some (save_cache order)) =
      (order.map fun row => row.1 ++ '\t' :: reread row.2).foldl load_row ∅ := by
  have hlines : ∀ line ∈ order.map save_row, '\n' ∉ line := by
    intro line hline
    obtain ⟨row, hrow, rfl⟩ := List.mem_map.mp hline
    simp [save_row, h row hrow]
  have hfile : (order.flatMap fun row => save_row row ++ ['\n']) =
      (order.map save_row).flatMap fun line => line ++ ['\n'] := by rw [List.flatMap_map]
  rw [load_cache, save_cache, Option.bind_some, decode_encode, Option.elim_some, hfile, strLines_flatMap hlines,
    List.map_map]
  exact congrArg (List.foldl load_row ∅) (List.map_congr_left fun row _ => reread_save_row row)

/-- Whatever the order of the rows, a row can be the last one. -/
theorem exists_order {entries : List Row} {row : Row} (h : row ∈ entries) :
    ∃ front : List Row, (front ++ [row]).Perm entries := by
  obtain ⟨before, after, rfl⟩ := List.append_of_mem h
  refine ⟨before ++ after, ?_⟩
  rw [List.append_assoc]
  exact List.Perm.append_left before (List.perm_append_singleton row after)

theorem mem_entries_iff {m : HashMap Text Text} {key value : Text} :
    (⟨key, value⟩ : Row) ∈ m.entries ↔ m.lookup key = some value :=
  AList.mem_lookup_iff.symm

/-- A key whose front ends at a tab is loaded as that front, with a value no one trusts. -/
theorem cached_reload_of_tab {order : List Row} {key rest value : Text}
    (h : ∀ row ∈ order ++ [⟨key ++ '\t' :: rest, value⟩], '\n' ∉ row.1 ∧ '\n' ∉ row.2) (htab : '\t' ∉ key) :
    cached (load_cache (some (save_cache (order ++ [⟨key ++ '\t' :: rest, value⟩])))) key = none := by
  have hrow := split_row htab (rest ++ '\t' :: reread value)
  have hvalue : is_channel_id (rest ++ '\t' :: reread value) = false := by
    rw [← Bool.not_eq_true]
    exact fun hid => not_mem_of_all_isIdByte (is_channel_id_alphabet hid) (c := '\t') (by decide) (by simp)
  rw [load_save_cache h, List.map_append, List.foldl_append]
  simp only [List.map_cons, List.map_nil, List.foldl_cons, List.foldl_nil, List.append_assoc, List.cons_append,
    load_row, hrow, cached, AList.lookup_insert, Option.filter_some, hvalue, Bool.false_eq_true, if_false]

/-- A key is loaded with its channel, when it has no tab and no other key goes on from it with one. -/
theorem cached_reload {live : HashMap Text Text} {key uc : Text} {order : List Row} (hclean : OneLine live)
    (horder : order.Perm live.entries) (hcached : cached live key = some uc) (htab : '\t' ∉ key)
    (hother : ∀ other ∈ live, ¬ key ++ ['\t'] <+: other) :
    cached (load_cache (some (save_cache order))) key = some uc := by
  obtain ⟨hlookup, hid⟩ := Option.filter_eq_some_iff.mp hcached
  have hrows : ∀ row ∈ order, live.lookup row.1 = some row.2 := fun row hrow =>
    mem_entries_iff.mp (horder.mem_iff.mp hrow)
  have huc : reread uc = uc := by
    refine reread_of_last_ne fun hlast => ?_
    exact not_mem_of_all_isIdByte (is_channel_id_alphabet hid) (c := '\r') (by decide) (List.mem_of_getLast? hlast)
  have hloaded : (load_cache (some (save_cache order))).lookup key = some uc := by
    rw [load_save_cache fun row hrow => hclean row.1 row.2 (hrows row hrow)]
    refine lookup_load_rows_of_agree ?_ (Or.inr ⟨key ++ '\t' :: uc, ?_, split_row htab uc⟩)
    · intro line hline v hsplit
      obtain ⟨row, hrow, rfl⟩ := List.mem_map.mp hline
      have hmem : row.1 ∈ live := AList.lookup_isSome.mp (hrows row hrow ▸ rfl)
      by_cases hinner : '\t' ∈ row.1
      · obtain ⟨front, rest, hfront, hsplitAt⟩ := List.eq_append_cons_of_mem hinner
        rw [hfront, List.append_assoc, List.cons_append, split_row hsplitAt, Option.some.injEq] at hsplit
        obtain ⟨rfl, _⟩ := Prod.mk.inj hsplit
        exact absurd ⟨rest, by rw [hfront, List.append_assoc]; rfl⟩ (hother row.1 hmem)
      · rw [split_row hinner, Option.some.injEq] at hsplit
        obtain ⟨rfl, rfl⟩ := Prod.mk.inj hsplit
        have hvalue := hlookup.symm.trans (hrows row hrow)
        rw [Option.some.injEq] at hvalue
        rw [← hvalue, huc]
    · exact List.mem_map.mpr ⟨⟨key, uc⟩, horder.mem_iff.mpr (mem_entries_iff.mpr hlookup), by rw [huc]⟩
  rw [cached, hloaded, Option.filter_some, if_pos hid]

theorem Fetched.spec {fetch : Nat → Text → Option Bytes} {live : HashMap Text Text} {before : List Text}
    {line uc : Text} (h : Fetched fetch live before line uc) :
    Fetchable (trim line) ∧ cached (caches fetch 0 before live) (trim line) = none ∧
      resolve (fetch before.length) line (caches fetch 0 before live) =
        (some uc, (caches fetch 0 before live).insert (trim line) uc) := by
  obtain ⟨hfetchable, hnone⟩ := requests_ne_nil_iff.mp h.1
  have hresolve := resolve_fetched (fetch before.length) hfetchable hnone
  have hanswer := h.2
  cases hfound : found (fetch before.length) (trim line) with
  | none =>
    rw [hresolve, hfound] at hanswer
    cases hanswer
  | some uc' =>
    rw [hfound] at hresolve
    rw [hresolve, Option.some.injEq] at hanswer
    exact ⟨hfetchable, hnone, hanswer ▸ hresolve⟩

/-- After the whole file, the local copy still has what one of its entries fetched. -/
theorem Fetched.cached_caches {fetch : Nat → Text → Option Bytes} {live : HashMap Text Text} {before : List Text}
    {line uc : Text} (h : Fetched fetch live before line uc) (after : List Text) :
    cached (caches fetch 0 (before ++ line :: after) live) (trim line) = some uc := by
  obtain ⟨_, _, hresolve⟩ := h.spec
  have hid := resolve_valid (congrArg Prod.fst hresolve)
  rw [caches_append, caches, Nat.zero_add, hresolve]
  refine renew.cached_caches fetch _ after ?_
  rw [cached, AList.lookup_insert, Option.filter_some, if_pos hid]

/-- The live cache keeps the entry unless it had a value for it, which was not trusted. -/
theorem Fetched.cached_merge_iff {fetch : Nat → Text → Option Bytes} {live : HashMap Text Text} {before : List Text}
    {line uc : Text} (h : Fetched fetch live before line uc) (after : List Text) :
    cached (merge_cache live (caches fetch 0 (before ++ line :: after) live)) (trim line) = some uc ↔
      trim line ∉ live := by
  rw [cached, lookup_merge_cache]
  constructor
  · intro hcached hmem
    rw [if_pos hmem] at hcached
    have hkept := renew.cached_caches fetch 0 before hcached
    rw [h.spec.2.1] at hkept
    cases hkept
  · intro hmem
    rw [if_neg hmem]
    exact h.cached_caches after

/-- An entry that was resolved by fetching its page stays resolved, in the live cache and in
every file it is saved to, exactly when it has no tab, the live cache had no value for it, and
no other key of the cache goes on from it with a tab. -/
theorem resolved_stays_resolved {live : HashMap Text Text} {content : Bytes} {text line uc : Text}
    {before after : List Text} {fetch : Nat → Text → Option Bytes} (hlive : Reachable live)
    (hcontent : decode content = some text) (hlines : active_lines text = before ++ line :: after)
    (hfetched : Fetched fetch live before line uc) :
    (Kept line uc (desired_set (some content) fetch live).2.2 ∧
      ∀ order : List Row, order.Perm (desired_set (some content) fetch live).2.2.entries →
        Kept line uc (load_cache (some (save_cache order)))) ↔
      '\t' ∉ line ∧ line ∉ live ∧
        ∀ key, line ++ ['\t'] <+: key → key ∉ live ∧ ¬ (Fetchable key ∧ Served fetch 0 (active_lines text) key) := by
  have hclean := (Reachable.desired (some content) fetch hlive).oneLine
  obtain ⟨htrim, _⟩ := active_lines_spec (hlines ▸ List.mem_append_right before List.mem_cons_self)
  have hfetchable := htrim ▸ hfetched.spec.1
  have hlive_iff := hfetched.cached_merge_iff after
  rw [htrim, ← hlines] at hlive_iff
  have hkey : ∀ key, key ∈ (desired_set (some content) fetch live).2.2 ↔
      key ∈ live ∨ (Fetchable key ∧ Served fetch 0 (active_lines text) key) := fun key => by
    rw [desired_set_cache hcontent, mem_merge_cache, mem_caches_iff]
    tauto
  rw [← desired_set_cache hcontent fetch live] at hlive_iff
  have hkept : ∀ cache, Kept line uc cache ↔ cached cache line = some uc := fun cache => by
    rw [kept_iff (htrim.symm ▸ hfetchable), htrim]
  simp only [hkept]
  constructor
  · rintro ⟨hcached, hreload⟩
    have htab : '\t' ∉ line := by
      obtain ⟨hlookup, _⟩ := Option.filter_eq_some_iff.mp (hreload _ (List.Perm.refl _))
      obtain ⟨row, _, hsplit⟩ := lookup_load_cache hlookup
      exact not_mem_key_of_split hsplit
    refine ⟨htab, hlive_iff.mp hcached, fun key hbegins => ?_⟩
    rw [← not_or, ← hkey]
    intro hmem
    obtain ⟨rest, rfl⟩ := hbegins
    obtain ⟨value, hvalue⟩ := Option.isSome_iff_exists.mp (AList.lookup_isSome.mpr hmem)
    obtain ⟨front, horder⟩ := exists_order (mem_entries_iff.mpr hvalue)
    have hlost := hreload _ horder
    rw [List.append_assoc, List.singleton_append] at hlost horder
    rw [cached_reload_of_tab (fun row hrow => ?_) htab] at hlost
    · cases hlost
    · exact hclean row.1 row.2 (mem_entries_iff.mp (horder.mem_iff.mp hrow))
  · rintro ⟨htab, hmem, hother⟩
    have hcached := hlive_iff.mpr hmem
    refine ⟨hcached, fun order horder => cached_reload hclean horder hcached htab fun key hkeyMem hbegins => ?_⟩
    obtain ⟨hnot, hserved⟩ := hother key hbegins
    exact ((hkey key).mp hkeyMem).elim hnot hserved

/-- A page that gives a channel at every request. -/
def sample_page : Nat → Text → Option Bytes := fun _ _ =>
  some (encode "\"externalId\":\"UCabcdefghijklmnopqrstuv\"".toList)

theorem resolved_stays_resolved_sample :
    (Kept "@a".toList "UCabcdefghijklmnopqrstuv".toList
        (desired_set (some (encode "@a".toList)) sample_page (load_cache none)).2.2 ∧
      ∀ order : List Row,
        order.Perm (desired_set (some (encode "@a".toList)) sample_page (load_cache none)).2.2.entries →
          Kept "@a".toList "UCabcdefghijklmnopqrstuv".toList (load_cache (some (save_cache order)))) := by
  have hlines : active_lines "@a".toList = [] ++ "@a".toList :: [] := by decide +kernel
  refine (resolved_stays_resolved (Reachable.load none) (decode_encode "@a".toList) hlines ⟨by decide +kernel,
    by decide +kernel⟩).mpr ⟨by decide, by decide, fun key hbegins => ⟨AList.notMem_empty key, fun hserved => ?_⟩⟩
  obtain ⟨n, line, hline, rfl, _⟩ := hserved.2
  have hmem := List.mem_of_getElem? hline
  rw [hlines, List.nil_append, List.mem_singleton] at hmem
  subst hmem
  revert hbegins
  decide +kernel

/-- A malformed value that was loaded is never replaced, and the tab of an entry is not escaped. -/
theorem resolved_is_lost :
    (Fetched sample_page (load_cache (some (encode "@a\tbroken\n".toList))) [] "@a".toList
        "UCabcdefghijklmnopqrstuv".toList ∧
      ¬ Kept "@a".toList "UCabcdefghijklmnopqrstuv".toList
        (desired_set (some (encode "@a".toList)) sample_page
          (load_cache (some (encode "@a\tbroken\n".toList)))).2.2) ∧
    (Fetched sample_page (load_cache none) [] "@a\tb".toList "UCabcdefghijklmnopqrstuv".toList ∧
      ¬ Kept "@a\tb".toList "UCabcdefghijklmnopqrstuv".toList
        (load_cache (some (save_cache
          (desired_set (some (encode "@a\tb".toList)) sample_page (load_cache none)).2.2.entries)))) := by
  refine ⟨⟨⟨by decide +kernel, by decide +kernel⟩, fun h => ?_⟩, ⟨by decide +kernel, by decide +kernel⟩, fun h => ?_⟩
  · have hnone := (h fun _ => none).2
    revert hnone
    decide +kernel
  · have hnone := (h fun _ => none).2
    revert hnone
    decide +kernel

end yt_websub.renew
