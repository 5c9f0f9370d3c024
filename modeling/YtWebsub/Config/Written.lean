import YtWebsub.Config

open rust rust.utf8 rust.text rust.num rust.map

namespace yt_websub.config

section lines

inductive Quotes where
  | plain
  | double
  | single
deriving DecidableEq

def Quotes.around : Quotes → Text → Text
  | .plain, value => value
  | .double, value => '"' :: value ++ ['"']
  | .single, value => '\'' :: value ++ ['\'']

/-- An assignment, with the white space an operator may put around its parts. -/
structure Assignment where
  indent : Text
  key : Text
  before : Text
  after : Text
  quotes : Quotes
  value : Text
  trailing : Text

def Assignment.render (a : Assignment) : Text :=
  a.indent ++ a.key ++ a.before ++ '=' :: (a.after ++ a.quotes.around a.value ++ a.trailing)

structure Assignment.WellFormed (a : Assignment) : Prop where
  indent : ∀ c ∈ a.indent, isWhitespace c = true
  before : ∀ c ∈ a.before, isWhitespace c = true
  after : ∀ c ∈ a.after, isWhitespace c = true
  trailing : ∀ c ∈ a.trailing, isWhitespace c = true
  key : trim a.key = a.key
  separated : '=' ∉ a.key
  active : a.key.head? ≠ some '#'
  /-- Without quotes, the value must not need them. -/
  plain : a.quotes = .plain → trim a.value = a.value ∧ strip_quotes a.value = a.value

inductive Line where
  | assignment (a : Assignment)
  | comment (indent text : Text)
  /-- A line without `=`, which may be blank. -/
  | other (text : Text)

def Line.render : Line → Text
  | .assignment a => a.render
  | .comment indent text => indent ++ '#' :: text
  | .other text => text

def Line.meaning : Line → Option (Text × Text)
  | .assignment a => some (a.key, a.value)
  | .comment _ _ => none
  | .other _ => none

def Line.WellFormed (l : Line) : Prop :=
  '\n' ∉ l.render ∧
    match l with
    | .assignment a => a.WellFormed
    | .comment indent _ => ∀ c ∈ indent, isWhitespace c = true
    | .other text => '=' ∉ text

theorem mem_of_mem_trim {c : Char} {s : Text} (h : c ∈ trim s) : c ∈ s :=
  (List.dropWhile_suffix _).subset ((List.rdropWhile_prefix _ _).subset h)

theorem strip_quotes_around {quotes : Quotes} (hquoted : quotes ≠ .plain) (value : Text) :
    trim (quotes.around value) = quotes.around value ∧ strip_quotes (quotes.around value) = value := by
  have hspec : ∀ q : Char, isWhitespace q = false → (q = '"' ∨ q = '\'') →
      trim (q :: value ++ [q]) = q :: value ++ [q] ∧ strip_quotes (q :: value ++ [q]) = value := by
    intro q hq hmark
    constructor
    · rw [trim_append_cons hq, trimStart, List.dropWhile_cons_of_neg (by simp [hq])]
      rfl
    · have hlength : 2 ≤ (encode (q :: value ++ [q])).length := by
        have hle := length_le_encode (q :: value ++ [q])
        simp only [List.length_append, List.length_cons, List.length_nil] at hle
        omega
      have hmatch : ([q].isPrefixOf (q :: value ++ [q]) && [q].isSuffixOf (q :: value ++ [q])) = true := by
        simp [List.isPrefixOf, List.isSuffixOf]
      unfold strip_quotes
      rw [if_pos]
      · rw [List.cons_append, List.tail_cons, List.dropLast_concat]
      · refine ⟨hlength, ?_⟩
        obtain rfl | rfl := hmark
        · exact Bool.or_eq_true_iff.mpr (.inl hmatch)
        · exact Bool.or_eq_true_iff.mpr (.inr hmatch)
  cases quotes with
  | plain => exact absurd rfl hquoted
  | double => exact hspec '"' rfl (.inl rfl)
  | single => exact hspec '\'' rfl (.inr rfl)

/-- The parts of an assignment are read back. -/
theorem Assignment.WellFormed.parse {a : Assignment} (hwf : a.WellFormed) :
    parse_env_line a.render = some (a.key, a.value) := by
  obtain ⟨hindent, hbefore, hafter, htrailing, hkey, hseparated, hactive, hplain⟩ := hwf
  let front := trimStart (a.indent ++ a.key ++ a.before)
  let back := trimEnd (a.after ++ a.quotes.around a.value ++ a.trailing)
  have hline : trim a.render = front ++ '=' :: back := trim_append_cons (by decide) _ _
  have hfront : trim front = a.key := by
    rw [trim_trimStart, trim_padded hindent hbefore, hkey]
  have hback : strip_quotes (trim back) = a.value := by
    rw [trim_trimEnd, trim_padded hafter htrailing]
    by_cases hquotes : a.quotes = .plain
    · obtain ⟨htrim, hstrip⟩ := hplain hquotes
      rw [hquotes, Quotes.around, htrim, hstrip]
    · obtain ⟨htrim, hstrip⟩ := strip_quotes_around hquotes a.value
      rw [htrim, hstrip]
  have hsplit : split_once ['='] (front ++ '=' :: back) = some (front, back) := by
    have hmem : '=' ∉ front := by
      intro h
      have h := (List.dropWhile_suffix isWhitespace).subset h
      simp only [List.mem_append] at h
      obtain (h | h) | h := h
      · exact absurd (hindent _ h) (by decide)
      · exact hseparated h
      · exact absurd (hbefore _ h) (by decide)
    rw [split_once, find_singleton hmem]
    simp
  have hskip : ¬ (trim a.render = [] || ['#'].isPrefixOf (trim a.render)) = true := by
    rw [hline]
    cases hchars : front with
    | nil => simp [List.isPrefixOf]
    | cons c rest =>
      have hne : c ≠ '#' := by
        rintro rfl
        rw [hchars, ← List.nil_append ('#' :: rest), trim_append_cons (by decide)] at hfront
        rw [← hfront] at hactive
        exact hactive rfl
      simpa [List.isPrefixOf] using hne.symm
  rw [parse_env_line, if_neg hskip, hline, hsplit]
  simp only [Option.map_some, hfront, hback]

theorem parse_env_line_render {l : Line} (hwf : l.WellFormed) : parse_env_line l.render = l.meaning := by
  cases l with
  | assignment a => exact hwf.2.parse
  | comment indent text =>
    have hindent : trimStart indent = [] := List.dropWhile_eq_nil_iff.mpr hwf.2
    have hline : trim (indent ++ '#' :: text) = '#' :: trimEnd text := by
      rw [trim_append_cons (by decide), hindent, List.nil_append]
    rw [Line.render, parse_env_line, hline, if_pos (by simp [List.isPrefixOf])]
    rfl
  | other text =>
    have hmem : '=' ∉ trim text := fun h => hwf.2 (mem_of_mem_trim h)
    have hsplit : split_once ['='] (trim text) = none := by
      cases hparts : split_once ['='] (trim text) with
      | none => rfl
      | some parts =>
        have h := (split_once_eq_some hparts).1
        rw [h] at hmem
        simp at hmem
    rw [Line.render, parse_env_line]
    simp only [hsplit, Option.map_none, ite_self]
    rfl

end lines

section files

/-- A file of lines, of which the last need not be terminated. -/
def written (lines : List Line) (last : Option Line) : Text :=
  (lines.flatMap fun l => l.render ++ ['\n']) ++ last.elim [] Line.render

theorem parse_env_line_reread (line : Text) : parse_env_line (reread line) = parse_env_line line := by
  rw [parse_env_line, parse_env_line, trim_reread]

theorem parse_env_file_written {lines : List Line} {last : Option Line} (hlines : ∀ l ∈ lines, l.WellFormed)
    (hlast : ∀ l ∈ last, l.WellFormed) :
    parse_env_file (written lines last) = (lines ++ last.toList).filterMap Line.meaning := by
  have hmap : (lines.flatMap fun l => l.render ++ ['\n']) =
      (lines.map Line.render).flatMap fun line => line ++ ['\n'] := by
    rw [List.flatMap_map]
  have hrendered : ∀ line ∈ lines.map Line.render, '\n' ∉ line :=
    List.forall_mem_map.mpr fun l hl => (hlines l hl).1
  have hfront : ((lines.map Line.render).map reread).filterMap parse_env_line = lines.filterMap Line.meaning := by
    rw [List.map_map, List.filterMap_map]
    refine List.filterMap_congr fun l hl => ?_
    rw [Function.comp_apply, Function.comp_apply, parse_env_line_reread, parse_env_line_render (hlines l hl)]
  have hback : '\n' ∉ last.elim [] Line.render ∧
      (if last.elim [] Line.render = [] then [] else [last.elim [] Line.render]).filterMap parse_env_line =
        last.toList.filterMap Line.meaning := by
    cases last with
    | none => exact ⟨List.not_mem_nil, rfl⟩
    | some l =>
      have hl := hlast l rfl
      refine ⟨hl.1, ?_⟩
      have hmeaning := parse_env_line_render hl
      rw [Option.elim_some, Option.toList_some, List.filterMap_cons, ← hmeaning]
      split
      · rename_i hnil
        rw [hnil]
        rfl
      · rfl
  rw [parse_env_file, written, hmap, strLines_append hrendered hback.1, List.filterMap_append, hfront, hback.2,
    List.filterMap_append]

/-- The value that the last assignment to a key gives it. -/
def last_value (pairs : List (Text × Text)) (k : Text) : Option Text :=
  pairs.reverse.lookup k

theorem lookup_insert_all (m : HashMap Text Text) (pairs : List (Text × Text)) (k : Text) :
    (insert_all m pairs).lookup k = (last_value pairs k).or (m.lookup k) := by
  induction pairs generalizing m with
  | nil => rfl
  | cons pair pairs ih =>
    change (insert_all (m.insert pair.1 pair.2) pairs).lookup k = _
    rw [ih, last_value, last_value, List.reverse_cons, List.lookup_append, Option.or_assoc]
    congr 1
    by_cases hk : k = pair.1
    · subst hk
      rw [AList.lookup_insert, List.lookup_cons, beq_self_eq_true]
      rfl
    · have hkey : (k == pair.1) = false := beq_eq_false_iff_ne.mpr hk
      rw [AList.lookup_insert_ne hk, List.lookup_cons, hkey]
      rfl

theorem lookup_filter (pairs : List (Text × Text)) (p : Text → Bool) (k : Text) :
    (pairs.filter fun pair => p pair.1).lookup k = if p k then pairs.lookup k else none := by
  induction pairs with
  | nil => simp
  | cons pair pairs ih =>
    obtain ⟨k', v⟩ := pair
    by_cases hk : k = k'
    · subst hk
      rw [List.filter_cons]
      by_cases hp : p k = true
      · rw [if_pos hp, if_pos hp, List.lookup_cons, List.lookup_cons, beq_self_eq_true]
      · rw [if_neg hp, ih, if_neg hp, if_neg hp]
    · have hkey : (k == k') = false := beq_eq_false_iff_ne.mpr hk
      rw [List.lookup_cons, hkey, ← ih, List.filter_cons]
      split
      · rw [List.lookup_cons, hkey]
      · rfl

theorem last_value_filter (vars : List (Text × Text)) (p : Text → Bool) (k : Text) :
    last_value (vars.filter fun var => p var.1) k = if p k then last_value vars k else none := by
  rw [last_value, ← List.filter_reverse, lookup_filter, last_value]

/-- The environment comes before the file, and of several assignments the last counts. -/
theorem lookup_settings (file : Option Bytes) (vars : List (Text × Text)) (k : Text) :
    (settings file vars).lookup k =
      (if "YTWEBSUB_".toList.isPrefixOf k then last_value vars k else none).or
        (last_value ((file.bind decode).elim [] parse_env_file) k) := by
  have hempty : (∅ : HashMap Text Text).lookup k = none := AList.lookup_empty k
  rw [settings, lookup_insert_all, lookup_insert_all, hempty, Option.or_none,
    last_value_filter vars fun key => "YTWEBSUB_".toList.isPrefixOf key]

theorem lookup_written {lines : List Line} {last : Option Line} (hlines : ∀ l ∈ lines, l.WellFormed)
    (hlast : ∀ l ∈ last, l.WellFormed) (vars : List (Text × Text)) {k : Text}
    (hown : "YTWEBSUB_".toList.isPrefixOf k = true) :
    (settings (some (encode (written lines last))) vars).lookup k =
      (last_value vars k).or (last_value ((lines ++ last.toList).filterMap Line.meaning) k) := by
  rw [lookup_settings, if_pos hown, Option.bind_some, decode_encode, Option.elim_some,
    parse_env_file_written hlines hlast]

end files

section range

def Strong (token : Text) : Prop :=
  "CHANGE_ME".toList.isPrefixOf token = false ∧ 32 ≤ (encode token).length

/-- What every loaded configuration is like. -/
structure Config.Valid (c : Config) : Prop where
  callback_base : c.callback_base.getLast? ≠ some '/'
  bearer_token : Strong c.bearer_token
  tls_cert : c.tls_cert ≠ []
  tls_key : c.tls_key ≠ []
  accept_threads : 1 ≤ c.accept_threads

/-- The settings of a configuration, with slashes after the base that are not part of it. -/
def Config.pairs (c : Config) (slashes : Nat) : List (Text × Text) :=
  [("YTWEBSUB_CALLBACK_BASE".toList, c.callback_base ++ List.replicate slashes '/'),
    ("YTWEBSUB_LISTEN".toList, c.listen), ("YTWEBSUB_TLS_CERT".toList, c.tls_cert),
    ("YTWEBSUB_TLS_KEY".toList, c.tls_key),
    ("YTWEBSUB_BEARER_TOKEN".toList, c.bearer_token), ("YTWEBSUB_CHANNELS_FILE".toList, c.channels_file),
    ("YTWEBSUB_STORAGE_DIR".toList, c.storage_dir), ("YTWEBSUB_LEASE_SECONDS".toList, to_string c.lease_seconds.val),
    ("YTWEBSUB_HUB_URL".toList, c.hub_url), ("YTWEBSUB_ACCEPT_THREADS".toList, to_string c.accept_threads.val)]

theorem req_eq_ok {map : HashMap Text Text} {k v : Text} : req map k = .ok v ↔ map.lookup k = some v ∧ v ≠ [] := by
  unfold req
  cases hfound : (map.lookup k).filter (· ≠ []) with
  | none =>
    constructor
    · intro h
      cases h
    rintro ⟨hlookup, hne⟩
    rw [hlookup, Option.filter_some, if_pos (decide_eq_true hne)] at hfound
    cases hfound
  | some v' =>
    obtain ⟨hlookup, hne⟩ := Option.filter_eq_some_iff.mp hfound
    rw [hlookup]
    refine ⟨fun h => ?_, fun ⟨h, _⟩ => congrArg _ (Option.some.inj h)⟩
    obtain rfl := Except.ok.inj h
    exact ⟨rfl, of_decide_eq_true hne⟩

theorem trim_slashes_last (s : Text) : (trim_slashes s).getLast? ≠ some '/' := by
  intro h
  obtain ⟨hne, hlast⟩ := List.mem_getLast?_eq_getLast h
  exact List.rdropWhile_last_not (fun c => decide (c = '/')) s hne (decide_eq_true hlast.symm)

theorem trim_slashes_replicate {s : Text} (h : s.getLast? ≠ some '/') (n : Nat) :
    trim_slashes (s ++ List.replicate n '/') = s := by
  induction n with
  | zero =>
    rw [List.replicate_zero, List.append_nil, trim_slashes, List.rdropWhile_eq_self_iff]
    intro hne hlast
    exact h (by rw [List.getLast?_eq_getLast_of_ne_nil hne, of_decide_eq_true hlast])
  | succ n ih =>
    rw [List.replicate_succ', ← List.append_assoc, trim_slashes, List.rdropWhile_concat_pos _ _ _ (by decide)]
    exact ih

theorem weak_iff {token : Text} :
    ("CHANGE_ME".toList.isPrefixOf token || decide ((encode token).length < 32)) = true ↔ ¬ Strong token := by
  rw [Strong, Bool.or_eq_true_iff, decide_eq_true_eq]
  cases "CHANGE_ME".toList.isPrefixOf token <;> simp

/-- The configuration of a map, with its required settings. -/
def assemble (map : HashMap Text Text) (base token cert key : Text) : Config :=
  let storage_dir := (map.lookup "YTWEBSUB_STORAGE_DIR".toList).getD "/var/lib/yt-websub".toList
  { callback_base := trim_slashes base
    listen := (map.lookup "YTWEBSUB_LISTEN".toList).getD "0.0.0.0:443".toList
    tls_cert := cert
    tls_key := key
    bearer_token := token
    channels_file := (map.lookup "YTWEBSUB_CHANNELS_FILE".toList).getD (storage_dir ++ "/channels.txt".toList)
    storage_dir
    lease_seconds := ((map.lookup "YTWEBSUB_LEASE_SECONDS".toList).bind (parse 64)).getD 432000
    hub_url := (map.lookup "YTWEBSUB_HUB_URL".toList).getD "https://pubsubhubbub.appspot.com/subscribe".toList
    accept_threads :=
      (((map.lookup "YTWEBSUB_ACCEPT_THREADS".toList).bind (parse 64)).filter (1 ≤ ·)).getD 4 }

theorem from_map_eq_ok {map : HashMap Text Text} {c : Config} :
    from_map map = .ok c ↔ ∃ base token cert key, req map "YTWEBSUB_CALLBACK_BASE".toList = .ok base ∧
      req map "YTWEBSUB_BEARER_TOKEN".toList = .ok token ∧ Strong token ∧
      req map "YTWEBSUB_TLS_CERT".toList = .ok cert ∧ req map "YTWEBSUB_TLS_KEY".toList = .ok key ∧
      assemble map base token cert key = c := by
  unfold from_map
  constructor
  · intro h
    cases hbase : req map "YTWEBSUB_CALLBACK_BASE".toList with
    | error e =>
      rw [hbase] at h
      cases h
    | ok base =>
      rw [hbase] at h
      cases htoken : req map "YTWEBSUB_BEARER_TOKEN".toList with
      | error e =>
        rw [htoken] at h
        cases h
      | ok token =>
        rw [htoken] at h
        simp only [bind, Except.bind] at h
        split at h
        · cases h
        · rename_i hstrong
          rw [weak_iff, not_not] at hstrong
          cases hcert : req map "YTWEBSUB_TLS_CERT".toList with
          | error e =>
            rw [hcert] at h
            cases h
          | ok cert =>
            rw [hcert] at h
            cases hkey : req map "YTWEBSUB_TLS_KEY".toList with
            | error e =>
              rw [hkey] at h
              cases h
            | ok key =>
              rw [hkey] at h
              exact ⟨base, token, cert, key, rfl, rfl, hstrong, rfl, rfl, Except.ok.inj h⟩
  · rintro ⟨base, token, cert, key, hbase, htoken, hstrong, hcert, hkey, rfl⟩
    rw [hbase, htoken, hcert, hkey]
    simp only [bind, Except.bind, if_neg (weak_iff.not.mpr (not_not.mpr hstrong))]
    rfl

theorem from_map_valid {map : HashMap Text Text} {c : Config} (h : from_map map = .ok c) : c.Valid := by
  obtain ⟨base, token, cert, key, _, _, hstrong, hcert, hkey, rfl⟩ := from_map_eq_ok.mp h
  refine ⟨trim_slashes_last base, hstrong, (req_eq_ok.mp hcert).2, (req_eq_ok.mp hkey).2, ?_⟩
  simp only [assemble]
  cases hthreads : ((map.lookup "YTWEBSUB_ACCEPT_THREADS".toList).bind (parse 64)).filter (1 ≤ ·) with
  | none => decide
  | some threads => exact of_decide_eq_true (Option.filter_eq_some_iff.mp hthreads).2

/-- Required settings may not be empty. -/
theorem from_map_pairs {map : HashMap Text Text} {c : Config} {slashes : Nat} (hvalid : c.Valid)
    (hbase : c.callback_base ≠ [] ∨ slashes ≠ 0)
    (hpairs : ∀ pair ∈ c.pairs slashes, map.lookup pair.1 = some pair.2) : from_map map = .ok c := by
  simp only [Config.pairs, List.forall_mem_cons] at hpairs
  obtain ⟨hsetting, hlisten, hcert, hkey, htoken, hchannels, hstorage, hlease, hhub, hthreads, _⟩ := hpairs
  obtain ⟨hslash, hstrong, hcerts, hkeys, hthread⟩ := hvalid
  have htokens : c.bearer_token ≠ [] := by
    intro hnil
    rw [hnil] at hstrong
    exact absurd hstrong.2 (by decide)
  have hsettings : c.callback_base ++ List.replicate slashes '/' ≠ [] := by
    rw [ne_eq, List.append_eq_nil_iff, List.replicate_eq_nil_iff, not_and_or]
    exact hbase
  refine from_map_eq_ok.mpr ⟨_, _, _, _, req_eq_ok.mpr ⟨hsetting, hsettings⟩, req_eq_ok.mpr ⟨htoken, htokens⟩, hstrong,
    req_eq_ok.mpr ⟨hcert, hcerts⟩, req_eq_ok.mpr ⟨hkey, hkeys⟩, ?_⟩
  rw [assemble, hlisten, hchannels, hstorage, hlease, hhub, hthreads, trim_slashes_replicate hslash, Option.bind_some,
    Option.bind_some, parse_to_string, parse_to_string, Option.filter_some, if_pos (decide_eq_true hthread)]
  rfl

theorem prefix_of_mem_pairs {c : Config} {slashes : Nat} {pair : Text × Text} (h : pair ∈ c.pairs slashes) :
    "YTWEBSUB_".toList.isPrefixOf pair.1 = true := by
  simp only [Config.pairs, List.mem_cons, List.not_mem_nil, or_false] at h
  obtain rfl | rfl | rfl | rfl | rfl | rfl | rfl | rfl | rfl | rfl := h <;> rfl

/-- A configuration is loaded back from a file, whatever its layout, and from the
environment, which wins; of several assignments the last counts, and slashes after the
callback base do not. -/
theorem load_written {lines : List Line} {last : Option Line} {vars : List (Text × Text)} {c : Config}
    {slashes : Nat} (hlines : ∀ l ∈ lines, l.WellFormed) (hlast : ∀ l ∈ last, l.WellFormed) (hvalid : c.Valid)
    (hbase : c.callback_base ≠ [] ∨ slashes ≠ 0)
    (hpairs : ∀ pair ∈ c.pairs slashes, (last_value vars pair.1).or
      (last_value ((lines ++ last.toList).filterMap Line.meaning) pair.1) = some pair.2) :
    load (some (encode (written lines last))) vars = .ok c := by
  refine from_map_pairs hvalid hbase fun pair hpair => ?_
  rw [lookup_written hlines hlast vars (prefix_of_mem_pairs hpair), hpairs pair hpair]

def example_config : Config where
  callback_base := "https://hooks.example.com".toList
  listen := "0.0.0.0:443".toList
  tls_cert := "/c.pem".toList
  tls_key := "/k.pem".toList
  bearer_token := List.replicate 32 'a'
  channels_file := "/d/channels.txt".toList
  storage_dir := "/d".toList
  lease_seconds := 600
  hub_url := "https://hub.example.com".toList
  accept_threads := 2

theorem example_config_valid : example_config.Valid where
  callback_base := by decide
  bearer_token := by
    refine ⟨rfl, ?_⟩
    exact (List.length_replicate (n := 32) (a := 'a')).symm.trans_le (length_le_encode _)
  tls_cert := by decide
  tls_key := by decide
  accept_threads := by decide

/-- A line of the kind `key = "value"`, in a file with `\r\n`. -/
def quoted_line (pair : Text × Text) : Line :=
  .assignment ⟨[], pair.1, [' '], [' '], .double, pair.2, ['\r']⟩

/-- What can be written between quotes, after a key of letters. -/
def plain (pair : Text × Text) : Bool :=
  pair.1.all (fun c => !isWhitespace c && c != '=' && c != '#') && pair.2.all (· != '\n')

theorem quoted_line_wellFormed {pair : Text × Text} (hplain : plain pair = true) : (quoted_line pair).WellFormed := by
  simp only [plain, Bool.and_eq_true, List.all_eq_true, Bool.not_eq_true', bne_iff_ne, ne_eq] at hplain
  obtain ⟨hkey, hvalue⟩ := hplain
  have hblank : ∀ c ∈ [' '], isWhitespace c = true := fun c hc => List.mem_singleton.mp hc ▸ rfl
  refine ⟨?_, ?_⟩
  · have hsolid : '\n' ∉ pair.1 := fun hmem => absurd (hkey _ hmem).1.1 (by decide)
    have hplain : '\n' ∉ pair.2 := fun hmem => hvalue _ hmem rfl
    simp [Line.render, quoted_line, Assignment.render, Quotes.around, hsolid, hplain]
  · exact
      { indent := fun c hc => absurd hc List.not_mem_nil
        before := hblank
        after := hblank
        trailing := fun c hc => List.mem_singleton.mp hc ▸ rfl
        key := trim_of_not_whitespace fun c hc => (hkey c hc).1.1
        separated := fun hmem => (hkey _ hmem).1.2 rfl
        active := fun hhead => (hkey _ (List.mem_of_head? hhead)).2 rfl
        plain := fun hquotes => by cases hquotes }

def example_lines : List Line :=
  [.comment [] " yt-websub".toList, .other []] ++
    ({ example_config with listen := "127.0.0.1:80".toList }.pairs 2).map quoted_line

theorem example_lines_wellFormed : ∀ l ∈ example_lines, l.WellFormed := by
  refine List.forall_mem_append.mpr ⟨?_, List.forall_mem_map.mpr ?_⟩
  · refine List.forall_mem_cons.mpr ⟨⟨by simp [Line.render], fun c hc => absurd hc List.not_mem_nil⟩,
      List.forall_mem_singleton.mpr ⟨List.not_mem_nil, List.not_mem_nil⟩⟩
  · have hplain : ∀ pair ∈ ({ example_config with listen := "127.0.0.1:80".toList }.pairs 2), plain pair = true := by
      decide +kernel
    exact fun pair hpair => quoted_line_wellFormed (hplain pair hpair)

theorem load_written_example :
    load (some (encode (written example_lines none))) [("YTWEBSUB_LISTEN".toList, "0.0.0.0:443".toList)] =
      .ok example_config :=
  load_written example_lines_wellFormed (fun _ h => by cases h) example_config_valid
    (show _ ∨ 2 ≠ 0 from Or.inr (by decide)) (by decide +kernel)

/-- No environment holds a NUL. -/
def Passable (vars : List (Text × Text)) : Prop :=
  ∀ var ∈ vars, '\x00' ∉ var.2

/-- A value that the file can hold, or else the environment. -/
def Settable (v : Text) : Prop :=
  '\n' ∉ v ∨ '\x00' ∉ v

theorem Settable.subset {v v' : Text} (h : Settable v) (hsub : v' ⊆ v) : Settable v' :=
  h.imp (fun hnl hmem => hnl (hsub hmem)) fun hnul hmem => hnul (hsub hmem)

theorem Settable.append {v v' : Text} (h : Settable v) (hnl : '\n' ∉ v') (hnul : '\x00' ∉ v') : Settable (v ++ v') :=
  h.imp (fun h hmem => (List.mem_append.mp hmem).elim h hnl) fun h hmem => (List.mem_append.mp hmem).elim h hnul

theorem settable_to_string (n : Nat) : Settable (to_string n) :=
  .inl (not_mem_to_string (by decide))

theorem strip_quotes_subset (v : Text) : strip_quotes v ⊆ v := by
  unfold strip_quotes
  dsimp only
  split
  · exact fun c hc => List.tail_subset v (List.dropLast_subset _ hc)
  · exact List.Subset.refl v

theorem mem_of_last_value {pairs : List (Text × Text)} {k v : Text} (h : last_value pairs k = some v) :
    (k, v) ∈ pairs := by
  obtain ⟨front, back, hsplit, _⟩ := List.lookup_eq_some_iff.mp h
  rw [← List.mem_reverse, hsplit]
  simp

/-- A line has no newline, and so its value has none. -/
theorem not_mem_of_parse_env_file {content k v : Text} (h : (k, v) ∈ parse_env_file content) : '\n' ∉ v := by
  obtain ⟨line, hline, hparse⟩ := List.mem_filterMap.mp h
  unfold parse_env_line at hparse
  dsimp only at hparse
  split at hparse
  · cases hparse
  obtain ⟨⟨key, value⟩, hsplit, hpair⟩ := Option.map_eq_some_iff.mp hparse
  obtain ⟨_, rfl⟩ := Prod.mk.inj hpair
  intro hmem
  have hvalue := mem_of_mem_trim (strip_quotes_subset _ hmem)
  have htrim : '\n' ∈ trim line := by
    rw [(split_once_eq_some hsplit).1]
    exact List.mem_append_right _ (List.mem_append_right _ hvalue)
  exact not_mem_of_mem_strLines hline (mem_of_mem_trim htrim)

theorem settable_of_lookup {file : Option Bytes} {vars : List (Text × Text)} (hvars : Passable vars) {k v : Text}
    (h : (settings file vars).lookup k = some v) : Settable v := by
  rw [lookup_settings, Option.or_eq_some_iff] at h
  obtain hvar | ⟨_, hline⟩ := h
  · split at hvar
    · exact .inr (hvars _ (mem_of_last_value hvar))
    · cases hvar
  · cases hcontent : file.bind decode with
    | none =>
      rw [hcontent] at hline
      cases hline
    | some content =>
      rw [hcontent] at hline
      exact .inl (not_mem_of_parse_env_file (mem_of_last_value hline))

theorem settable_getD {file : Option Bytes} {vars : List (Text × Text)} (hvars : Passable vars) (k : Text)
    {default : Text} (hdefault : Settable default) : Settable (((settings file vars).lookup k).getD default) := by
  cases hvalue : (settings file vars).lookup k with
  | none => exact hdefault
  | some v => exact settable_of_lookup hvars hvalue

theorem load_settable {file : Option Bytes} {vars : List (Text × Text)} (hvars : Passable vars) {c : Config}
    (h : load file vars = .ok c) : ∀ pair ∈ c.pairs 0, Settable pair.2 := by
  obtain ⟨base, token, cert, key, hbase, htoken, _, hcert, hkey, rfl⟩ := from_map_eq_ok.mp h
  have hreq : ∀ {k v : Text}, req (settings file vars) k = .ok v → Settable v := fun hfound =>
    settable_of_lookup hvars (req_eq_ok.mp hfound).1
  have hdir : Settable "/var/lib/yt-websub".toList := .inl (by simp)
  have haddress : Settable "0.0.0.0:443".toList := .inl (by simp)
  have hhub : Settable "https://pubsubhubbub.appspot.com/subscribe".toList := .inl (by simp)
  have hstorage := @settable_getD file _ hvars "YTWEBSUB_STORAGE_DIR".toList _ hdir
  simp only [Config.pairs, List.forall_mem_cons, List.replicate_zero, List.append_nil]
  exact ⟨(hreq hbase).subset (List.rdropWhile_prefix _ _).subset, settable_getD hvars _ haddress,
    hreq hcert, hreq hkey, hreq htoken, settable_getD hvars _ (hstorage.append (by simp) (by simp)), hstorage,
    settable_to_string _, settable_getD hvars _ hhub, settable_to_string _,
    fun pair hpair => absurd hpair List.not_mem_nil⟩

theorem lookup_of_mem {pairs : List (Text × Text)} (hdistinct : (pairs.map Prod.fst).Nodup) {pair : Text × Text}
    (h : pair ∈ pairs) : pairs.lookup pair.1 = some pair.2 := by
  induction pairs with
  | nil => cases h
  | cons first pairs ih =>
    obtain ⟨hnew, hrest⟩ := List.nodup_cons.mp hdistinct
    obtain rfl | h := List.mem_cons.mp h
    · rw [List.lookup_cons, beq_self_eq_true]
    · have hne : (pair.1 == first.1) = false :=
        beq_eq_false_iff_ne.mpr fun heq => hnew (heq ▸ List.mem_map_of_mem h)
      rw [List.lookup_cons, hne]
      exact ih hrest h

/-- Of pairs with distinct keys, some can be left to others to set. -/
theorem last_value_partition {pairs : List (Text × Text)} (hdistinct : (pairs.map Prod.fst).Nodup)
    (p : Text × Text → Bool) {pair : Text × Text} (h : pair ∈ pairs) :
    (last_value (pairs.filter fun x => !p x) pair.1).or (last_value (pairs.filter p) pair.1) = some pair.2 := by
  have hpart : ∀ p' : Text × Text → Bool, p' pair = true → last_value (pairs.filter p') pair.1 = some pair.2 := by
    intro p' hp'
    apply lookup_of_mem
    · rw [List.map_reverse, List.nodup_reverse]
      exact hdistinct.sublist (List.filter_sublist.map _)
    · exact List.mem_reverse.mpr (List.mem_filter.mpr ⟨h, hp'⟩)
  cases hp : p pair with
  | false => rw [hpart (fun x => !p x) (by rw [hp]; rfl), Option.some_or]
  | true =>
    have hnone : last_value (pairs.filter fun x => !p x) pair.1 = none := by
      rw [Option.eq_none_iff_forall_ne_some]
      intro v hv
      obtain ⟨hmem, hother⟩ := List.mem_filter.mp (mem_of_last_value hv)
      have hsame : pairs.lookup pair.1 = some v := lookup_of_mem hdistinct hmem
      rw [lookup_of_mem hdistinct h, Option.some.injEq] at hsame
      subst hsame
      change (!p pair) = true at hother
      rw [hp] at hother
      cases hother
    rw [hnone, Option.none_or, hpart p hp]

theorem distinct_pairs (c : Config) (slashes : Nat) : ((c.pairs slashes).map Prod.fst).Nodup := by
  simp only [Config.pairs, List.map_cons, List.map_nil]
  decide +kernel

theorem plain_of_mem_pairs {c : Config} {slashes : Nat} {pair : Text × Text} (h : pair ∈ c.pairs slashes)
    (hnl : '\n' ∉ pair.2) : plain pair = true := by
  have hkeys : (["YTWEBSUB_CALLBACK_BASE", "YTWEBSUB_LISTEN", "YTWEBSUB_TLS_CERT", "YTWEBSUB_TLS_KEY",
      "YTWEBSUB_BEARER_TOKEN", "YTWEBSUB_CHANNELS_FILE", "YTWEBSUB_STORAGE_DIR", "YTWEBSUB_LEASE_SECONDS",
      "YTWEBSUB_HUB_URL", "YTWEBSUB_ACCEPT_THREADS"].all fun k =>
        k.toList.all fun c => !isWhitespace c && c != '=' && c != '#') = true := by decide +kernel
  simp only [List.all_cons, List.all_nil, Bool.and_true, Bool.and_eq_true] at hkeys
  refine Bool.and_eq_true_iff.mpr ⟨?_, List.all_eq_true.mpr fun c hc => bne_iff_ne.mpr fun heq => hnl (heq ▸ hc)⟩
  simp only [Config.pairs, List.mem_cons, List.not_mem_nil, or_false] at h
  obtain rfl | rfl | rfl | rfl | rfl | rfl | rfl | rfl | rfl | rfl := h <;> simp only [hkeys]

/-- What the daemon can be started with. -/
theorem config_range (c : Config) :
    (∃ file vars, Passable vars ∧ load file vars = .ok c) ↔ c.Valid ∧ ∀ pair ∈ c.pairs 0, Settable pair.2 := by
  constructor
  · rintro ⟨file, vars, hvars, h⟩
    exact ⟨from_map_valid h, load_settable hvars h⟩
  · rintro ⟨hvalid, hsettable⟩
    -- What a line can hold is in the file, and the rest is in the environment.
    let fits (pair : Text × Text) : Bool := '\n' ∉ pair.2
    refine ⟨some (encode (written (((c.pairs 1).filter fits).map quoted_line) none)),
      (c.pairs 1).filter fun pair => !fits pair, fun var hvar => ?_, ?_⟩
    · obtain ⟨hmem, hnl⟩ := List.mem_filter.mp hvar
      simp only [fits, Bool.not_eq_true', decide_eq_false_iff_not, not_not] at hnl
      have hall : ∀ pair ∈ c.pairs 1, Settable pair.2 := by
        simp only [Config.pairs, List.forall_mem_cons, List.replicate_zero, List.append_nil] at hsettable ⊢
        exact ⟨hsettable.1.append (by simp) (by simp), hsettable.2⟩
      exact (hall var hmem).resolve_left (not_not.mpr hnl)
    · have hlines : ∀ l ∈ ((c.pairs 1).filter fits).map quoted_line, l.WellFormed :=
        List.forall_mem_map.mpr fun pair hpair =>
          have hkept := List.mem_filter.mp hpair
          quoted_line_wellFormed (plain_of_mem_pairs hkept.1 (of_decide_eq_true hkept.2))
      have hmeaning : ((((c.pairs 1).filter fits).map quoted_line) ++ none.toList).filterMap Line.meaning =
          (c.pairs 1).filter fits := by
        rw [Option.toList_none, List.append_nil, List.filterMap_map]
        exact List.filterMap_some
      refine from_map_pairs hvalid (Or.inr Nat.one_ne_zero) fun pair hpair => ?_
      rw [lookup_written hlines (fun _ h => by cases h) _ (prefix_of_mem_pairs hpair), hmeaning]
      exact last_value_partition (distinct_pairs c 1) fits hpair

end range

end yt_websub.config
