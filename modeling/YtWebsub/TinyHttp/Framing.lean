import YtWebsub.TinyHttp.Client

open rust rust.utf8 rust.text rust.num

namespace tiny_http

theorem from_ascii_encode {s : Text} (h : ∀ c ∈ s, c.toNat < 0x80) : from_ascii (encode s) = some s := by
  have hsmall : ∀ c ∈ s, (UInt8.ofNat c.toNat).toNat = c.toNat := fun c hc => by
    have := h c hc
    rw [UInt8.toNat_ofNat']
    omega
  have hall : (encode s).all (· < 0x80) = true := by
    rw [encode_ascii h, List.all_map, List.all_eq_true]
    intro c hc
    have hlt := h c hc
    simp only [Function.comp_apply, decide_eq_true_eq, UInt8.lt_iff_toNat_lt, hsmall c hc]
    exact hlt
  rw [from_ascii, if_pos hall, encode_ascii h, List.map_map, Option.some.injEq]
  refine (List.map_congr_left fun c hc => ?_).trans (List.map_id s)
  rw [Function.comp_apply, hsmall c hc, Char.ofNat_toNat]
  rfl

/-- A header as it is sent. -/
def Header.line (h : Header) : Text :=
  h.field ++ ':' :: ' ' :: h.value

def HTTPVersion.text (v : HTTPVersion) : Text :=
  "HTTP/".toList ++ to_string v.major ++ '.' :: to_string v.minor

structure Header.WellFormed (h : Header) : Prop where
  field : ∀ c ∈ h.field, c.toNat < 0x80 ∧ isWhitespace c = false ∧ c ≠ ':'
  value : ∀ c ∈ h.value, c.toNat < 0x80 ∧ c ≠ '\r'
  trimmed : trim h.value = h.value
  short : h.line.length < client.MAX_LINE_BYTES

theorem Header.WellFormed.ascii {h : Header} (hwf : h.WellFormed) : ∀ c ∈ h.line, c.toNat < 0x80 ∧ c ≠ '\r' := by
  intro c hc
  simp only [Header.line, List.mem_append, List.mem_cons] at hc
  obtain hc | rfl | rfl | hc := hc
  · obtain ⟨hlow, hsolid, _⟩ := hwf.field c hc
    refine ⟨hlow, ?_⟩
    rintro rfl
    exact absurd hsolid (by decide)
  · decide
  · decide
  · exact hwf.value c hc

/-- A header is read back from its line. -/
theorem Header.WellFormed.from_str {h : Header} (hwf : h.WellFormed) : Header.from_str (trim h.line) = some h := by
  have hsolid : ∀ c ∈ h.field, isWhitespace c = false := fun c hc => (hwf.field c hc).2.1
  have hcolon : ':' ∉ h.field := fun hmem => (hwf.field _ hmem).2.2 rfl
  have hline : trim h.line = h.field ++ ':' :: trimEnd (' ' :: h.value) := by
    rw [Header.line, trim_append_cons (by decide), trimStart_of_not_whitespace hsolid]
  have hsplit : split_once [':'] (trim h.line) = some (h.field, trimEnd (' ' :: h.value)) := by
    rw [hline, split_once, find_singleton hcolon]
    simp
  have hvalue : trim (trimEnd (' ' :: h.value)) = h.value := by
    have hpad := trim_padded (show ∀ c ∈ [' '], isWhitespace c = true from fun c hc => List.mem_singleton.mp hc ▸ rfl)
      (fun c hc => absurd hc List.not_mem_nil) h.value
    rw [List.append_nil, List.singleton_append] at hpad
    rw [trim_trimEnd, hpad, hwf.trimmed]
  have hfield : ¬ h.field.any isWhitespace = true := by
    rw [List.any_eq_true]
    rintro ⟨c, hc, hwhite⟩
    rw [hsolid c hc] at hwhite
    cases hwhite
  rw [Header.from_str, hsplit]
  change (if h.field.any isWhitespace then none else some (⟨h.field, trim (trimEnd (' ' :: h.value))⟩ : Header)) = _
  rw [if_neg hfield, hvalue]

namespace client

theorem read_line_terminated (ending : Ending) {bs : Bytes} (hcr : (13 : UInt8) ∉ bs) {buf : Bytes} {line : Text}
    (hlength : buf.length + bs.length < MAX_LINE_BYTES) (hascii : from_ascii (buf ++ bs) = some line) (rest : Bytes) :
    read_line ending buf false (bs ++ 13 :: 10 :: rest) = .ok (line, rest) := by
  induction bs generalizing buf with
  | nil =>
    have hroom : ¬ (buf ++ [13]).length > MAX_LINE_BYTES := by
      simp only [List.length_append, List.length_singleton, List.length_nil] at hlength ⊢
      omega
    rw [List.append_nil] at hascii
    rw [List.nil_append, read_line, if_neg (by simp), if_neg hroom, read_line, if_pos (by decide),
      List.dropLast_concat, hascii]
  | cons b bs ih =>
    have hb : b ≠ 13 := fun h => hcr (h ▸ List.mem_cons_self)
    have hroom : ¬ (buf ++ [b]).length > MAX_LINE_BYTES := by
      simp only [List.length_append, List.length_cons, List.length_nil] at hlength ⊢
      omega
    rw [List.cons_append, read_line, if_neg (by simp), if_neg hroom, decide_eq_false hb]
    refine ih (fun h => hcr (List.mem_cons_of_mem b h)) ?_ ?_
    · simp only [List.length_append, List.length_cons, List.length_nil] at hlength ⊢
      omega
    · rwa [List.append_assoc, List.singleton_append]

def render_line (line : Text) : Bytes :=
  encode line ++ [13, 10]

theorem read_next_line_render (ending : Ending) {line : Text} (hascii : ∀ c ∈ line, c.toNat < 0x80 ∧ c ≠ '\r')
    (hlength : line.length < MAX_LINE_BYTES) (rest : Bytes) :
    read_next_line ending (render_line line ++ rest) = .ok (line, rest) := by
  have hlow : ∀ c ∈ line, c.toNat < 0x80 := fun c hc => (hascii c hc).1
  rw [read_next_line, render_line, List.append_assoc]
  refine read_line_terminated ending ?_ ?_ ?_ rest
  · exact not_mem_encode (c := '\r') (by decide) fun hmem => (hascii _ hmem).2 rfl
  · rw [encode_ascii hlow]
    simpa using hlength
  · rw [List.nil_append]
    exact from_ascii_encode hlow

def Head.request_line (h : Head) : Text :=
  h.method.as_str ++ ' ' :: (h.path ++ ' ' :: h.version.text)

/-- A head as a client sends it. -/
def Head.render (h : Head) : Bytes :=
  render_line h.request_line ++ h.headers.flatMap (fun header => render_line header.line) ++ [13, 10]

def versions : List HTTPVersion :=
  [⟨0, 9⟩, ⟨1, 0⟩, ⟨1, 1⟩, ⟨2, 0⟩, ⟨3, 0⟩]

structure Head.WellFormed (h : Head) : Prop where
  method : h.method.as_str ≠ [] ∧ ∀ c ∈ h.method.as_str, c.toNat < 0x80 ∧ isWhitespace c = false
  /-- A non-standard method is not called like a standard one. -/
  named : Method.from_str h.method.as_str = h.method
  path : ∀ c ∈ h.path, c.toNat < 0x80 ∧ c ≠ '\r' ∧ c ≠ ' '
  version : h.version ∈ versions
  headers : ∀ header ∈ h.headers, header.WellFormed
  few : h.headers.length ≤ MAX_HEADERS
  short : h.request_line.length < MAX_LINE_BYTES

/-- What the text of a version is made of, and that it is read back. -/
theorem version_spec {v : HTTPVersion} (hv : v ∈ versions) :
    parse_http_version v.text = some v ∧ (∀ c ∈ v.text, c.toNat < 0x80 ∧ c ≠ '\r' ∧ c ≠ ' ') ∧
      ∃ front d, v.text = front ++ [d] ∧ isWhitespace d = false := by
  simp only [versions, List.mem_cons, List.not_mem_nil, or_false] at hv
  obtain rfl | rfl | rfl | rfl | rfl := hv
  · rw [show HTTPVersion.text ⟨0, 9⟩ = "HTTP/0.9".toList from rfl]
    exact ⟨rfl, by simp, "HTTP/0.".toList, '9', rfl, rfl⟩
  · rw [show HTTPVersion.text ⟨1, 0⟩ = "HTTP/1.0".toList from rfl]
    exact ⟨rfl, by simp, "HTTP/1.".toList, '0', rfl, rfl⟩
  · rw [show HTTPVersion.text ⟨1, 1⟩ = "HTTP/1.1".toList from rfl]
    exact ⟨rfl, by simp, "HTTP/1.".toList, '1', rfl, rfl⟩
  · rw [show HTTPVersion.text ⟨2, 0⟩ = "HTTP/2.0".toList from rfl]
    exact ⟨rfl, by simp, "HTTP/2.".toList, '0', rfl, rfl⟩
  · rw [show HTTPVersion.text ⟨3, 0⟩ = "HTTP/3.0".toList from rfl]
    exact ⟨rfl, by simp, "HTTP/3.".toList, '0', rfl, rfl⟩

theorem Head.WellFormed.ascii {h : Head} (hwf : h.WellFormed) :
    ∀ c ∈ h.request_line, c.toNat < 0x80 ∧ c ≠ '\r' := by
  intro c hc
  simp only [Head.request_line, List.mem_append, List.mem_cons] at hc
  obtain hc | rfl | hc | rfl | hc := hc
  · obtain ⟨hlow, hsolid⟩ := hwf.method.2 c hc
    refine ⟨hlow, ?_⟩
    rintro rfl
    exact absurd hsolid (by decide)
  · decide
  · obtain ⟨hlow, hcr, _⟩ := hwf.path c hc
    exact ⟨hlow, hcr⟩
  · decide
  · obtain ⟨hlow, hcr, _⟩ := (version_spec hwf.version).2.1 c hc
    exact ⟨hlow, hcr⟩

theorem Head.WellFormed.trim_request_line {h : Head} (hwf : h.WellFormed) : trim h.request_line = h.request_line := by
  obtain ⟨front, d, htext, hd⟩ := (version_spec hwf.version).2.2
  have hline : h.request_line = h.method.as_str ++ ' ' :: (h.path ++ ' ' :: front) ++ d :: [] := by
    simp [Head.request_line, htext]
  have hstart : trimStart (h.method.as_str ++ ' ' :: (h.path ++ ' ' :: front)) =
      h.method.as_str ++ ' ' :: (h.path ++ ' ' :: front) := by
    obtain ⟨hne, hall⟩ := hwf.method
    obtain ⟨c, rest, hmethod⟩ := List.exists_cons_of_ne_nil hne
    have hc := (hall c (hmethod ▸ List.mem_cons_self)).2
    rw [hmethod, List.cons_append, trimStart, List.dropWhile_cons_of_neg (by simp [hc])]
  rw [hline, trim_append_cons hd, hstart]
  rfl

theorem Head.WellFormed.parse_request_line {h : Head} (hwf : h.WellFormed) :
    parse_request_line (trim h.request_line) = .ok (h.method, h.path, h.version) := by
  have hmethod : ' ' ∉ h.method.as_str := fun hmem => absurd (hwf.method.2 _ hmem).2 (by decide)
  have hpath : ' ' ∉ h.path := fun hmem => (hwf.path _ hmem).2.2 rfl
  obtain ⟨hparse, hplain, _⟩ := version_spec hwf.version
  have hversion : ' ' ∉ h.version.text := fun hmem => (hplain _ hmem).2.2 rfl
  have hsplit : (trim h.request_line).splitOn ' ' = [h.method.as_str, h.path, h.version.text] := by
    rw [hwf.trim_request_line, Head.request_line, List.splitOn_append_cons_self_of_not_mem hmethod,
      List.splitOn_append_cons_self_of_not_mem hpath, List.splitOn_eq_singleton hversion]
  rw [client.parse_request_line, hsplit]
  simp only [hparse, hwf.named]

theorem read_headers_render (ending : Ending) (version : HTTPVersion) (done : List Header) {room : Nat}
    {headers : List Header} (hwf : ∀ header ∈ headers, header.WellFormed) (hroom : headers.length ≤ room)
    (rest : Bytes) :
    read_headers ending version room done
        (headers.flatMap (fun header => render_line header.line) ++ 13 :: 10 :: rest) =
      .ok (done ++ headers, rest) := by
  induction headers generalizing room done with
  | nil =>
    have hempty : read_next_line ending (13 :: 10 :: rest) = .ok ([], rest) :=
      read_next_line_render ending (fun c hc => absurd hc List.not_mem_nil) (by decide) rest
    rw [List.flatMap_nil, List.nil_append, List.append_nil]
    rw [read_headers, hempty]
    simp only [bind, Except.bind, if_true, pure, Except.pure]
  | cons header headers ih =>
    obtain ⟨hheader, hheaders⟩ := List.forall_mem_cons.mp hwf
    cases room with
    | zero => simp at hroom
    | succ room =>
      have hline := read_next_line_render ending hheader.ascii hheader.short
        (headers.flatMap (fun header => render_line header.line) ++ 13 :: 10 :: rest)
      have hne : header.line ≠ [] := by simp [Header.line]
      rw [List.flatMap_cons, List.append_assoc, read_headers, hline]
      simp only [bind, Except.bind, if_neg hne, hheader.from_str]
      rw [ih _ hheaders (by simpa using hroom)]
      simp

/-- A well-formed head is read back, and what follows it is left on the connection. -/
theorem read_head_render (ending : Ending) {h : Head} (hwf : h.WellFormed) (rest : Bytes) :
    read_head ending (h.render ++ rest) = .ok (h, rest) := by
  have hline := read_next_line_render ending hwf.ascii hwf.short
    (h.headers.flatMap (fun header => render_line header.line) ++ 13 :: 10 :: rest)
  have hheaders := read_headers_render ending h.version [] hwf.headers hwf.few rest
  have hbytes : h.render ++ rest = render_line h.request_line ++
      (h.headers.flatMap (fun header => render_line header.line) ++ 13 :: 10 :: rest) := by
    simp [Head.render]
  rw [hbytes, read_head, hline]
  simp only [bind, Except.bind, hwf.parse_request_line, hheaders, pure, Except.pure, List.nil_append]

/-- A request with its body. -/
structure Message where
  head : Head
  body : Bytes

def Message.render (m : Message) : Bytes :=
  m.head.render ++ m.body

/-- The body is as long as the headers say, and is not encoded otherwise. -/
structure Message.WellFormed (m : Message) : Prop where
  head : m.head.WellFormed
  supported : m.head.version.gt ⟨1, 1⟩ = false
  expects : (expects_continue m.head.headers).isSome = true
  plain : connection_upgrade m.head.headers = false
  encoding : find_header m.head.headers "Transfer-Encoding".toList = none
  length : ((content_length m.head.headers).map Fin.val).getD 0 = m.body.length

section message

variable (chunked : Chunked) {m : Message}

/-- What is left of a body that was read in part: what lies beyond the drain. -/
theorem consume_exact (asked : Nat) (body rest : Bytes) :
    (Body.exact body.length).consume chunked asked (body ++ rest) =
      (body.take asked, body.drop (asked + MAX_DRAIN) ++ rest) := by
  simp only [Body.consume, Prod.mk.injEq]
  constructor
  · rw [List.take_append_of_le_length (min_le_right _ _)]
    obtain hle | hlt := Nat.le_total asked body.length
    · rw [Nat.min_eq_left hle]
    · rw [Nat.min_eq_right hlt, List.take_length, List.take_of_length_le hlt]
  · obtain hle | hlt := Nat.le_total (asked + MAX_DRAIN) body.length
    · have hdrop : min asked body.length + min (body.length - min asked body.length) MAX_DRAIN = asked + MAX_DRAIN := by
        omega
      rw [hdrop, List.drop_append_of_le_length hle]
    · have hdrop : min asked body.length + min (body.length - min asked body.length) MAX_DRAIN = body.length := by
        omega
      rw [hdrop, List.drop_left, List.drop_eq_nil_of_le hlt, List.nil_append]

/-- A well-formed request is handed on with its body, of which the handler is given what it
asks for. -/
theorem Message.WellFormed.next (hwf : m.WellFormed) (ending : Ending) (asked : Nat) (rest : Bytes) :
    ∃ body after, client.next ending false (m.render ++ rest) = .request m.head body after ∧
      body.consume chunked asked after = (m.body.take asked, m.body.drop (asked + MAX_DRAIN) ++ rest) := by
  obtain ⟨expects, hexpects⟩ := Option.isSome_iff_exists.mp hwf.expects
  have hlength := hwf.length
  have hread : read_head ending (m.render ++ rest) = .ok (m.head, m.body ++ rest) := by
    rw [Message.render, List.append_assoc]
    exact read_head_render ending hwf.head _
  have hnext : ∀ body after, new_request ending m.head (m.body ++ rest) = .ok (body, after) →
      client.next ending false (m.render ++ rest) = .request m.head body after := fun body after hnew => by
    rw [client.next, if_neg (by decide), hread]
    simp only [hnew, hwf.supported]
    rfl
  have hempty : m.body = [] → (Body.empty).consume chunked asked (m.body ++ rest) =
      (m.body.take asked, m.body.drop (asked + MAX_DRAIN) ++ rest) := fun hnil => by
    simp [Body.consume, hnil]
  cases hcontent : content_length m.head.headers with
  | none =>
    have hnil : m.body = [] := by
      rw [hcontent] at hlength
      exact List.length_eq_zero_iff.mp hlength.symm
    refine ⟨.empty, m.body ++ rest, hnext _ _ ?_, hempty hnil⟩
    simp only [new_request, hexpects, hwf.plain, hcontent, hwf.encoding, Option.isSome_none, Bool.false_eq_true,
      if_false]
  | some length =>
    have hval : length.val = m.body.length := by
      rw [hcontent] at hlength
      exact hlength
    by_cases hzero : length.val = 0
    · refine ⟨.empty, m.body ++ rest, hnext _ _ ?_, hempty (List.length_eq_zero_iff.mp (hval ▸ hzero))⟩
      simp only [new_request, hexpects, hwf.plain, hcontent, if_pos hzero, Bool.false_eq_true, if_false]
    · by_cases hsmall : length.val ≤ 1024 ∧ expects = false
      · refine ⟨.buffered m.body, rest, hnext _ _ ?_, ?_⟩
        · have hall : ¬ (m.body ++ rest).length < length.val := by
            rw [hval, List.length_append]
            omega
          simp only [new_request, hexpects, hwf.plain, hcontent, if_neg hzero, if_pos hsmall, if_neg hall,
            Bool.false_eq_true, if_false]
          rw [hval, List.take_left, List.drop_left]
        · have hdrop : m.body.drop (asked + MAX_DRAIN) = [] := by
            refine List.drop_eq_nil_of_le ?_
            have hdrain : 1024 ≤ MAX_DRAIN := by decide
            omega
          rw [hdrop]
          rfl
      · refine ⟨.exact m.body.length, m.body ++ rest, hnext _ _ ?_, consume_exact chunked asked m.body rest⟩
        rw [← hval]
        simp only [new_request, hexpects, hwf.plain, hcontent, if_neg hzero, if_neg hsmall, Bool.false_eq_true,
          if_false]

/-- The requests of a connection are served one after the other; what is neither asked for
nor drained of a body is taken for what follows it. -/
theorem serve_message (hwf : m.WellFormed) (ending : Ending) (asked : Nat) (later : List Nat) (rest : Bytes) :
    serve chunked ending false (asked :: later) (m.render ++ rest) =
      let after := serve chunked ending (is_last m.head) later (m.body.drop (asked + MAX_DRAIN) ++ rest)
      (⟨m.head, m.body.take asked⟩ :: after.1, after.2) := by
  obtain ⟨body, after, hnext, hconsume⟩ := hwf.next chunked ending asked rest
  rw [serve, hnext]
  simp only [hconsume]

theorem serve_exchanges {exchanges : List (Message × Nat)} (hwf : ∀ e ∈ exchanges, e.1.WellFormed)
    (hdrained : ∀ e ∈ exchanges, e.1.body.length ≤ e.2 + MAX_DRAIN)
    (hlast : ∀ e ∈ exchanges.dropLast, is_last e.1.head = false) (ending : Ending) (rest : Bytes) :
    serve chunked ending false (exchanges.map Prod.snd) (exchanges.flatMap (fun e => e.1.render) ++ rest) =
      (exchanges.map fun e => ⟨e.1.head, e.1.body.take e.2⟩, rest) := by
  induction exchanges with
  | nil => rfl
  | cons e exchanges ih =>
    obtain ⟨hhead, htail⟩ := List.forall_mem_cons.mp hwf
    obtain ⟨hcovered, hcovereds⟩ := List.forall_mem_cons.mp hdrained
    rw [List.map_cons, List.flatMap_cons, List.append_assoc, serve_message chunked hhead,
      List.drop_eq_nil_of_le hcovered, List.nil_append, List.map_cons]
    cases exchanges with
    | nil => rfl
    | cons next exchanges =>
      have hkept : is_last e.1.head = false := hlast e (by simp)
      rw [hkept, ih htail hcovereds fun e he => hlast e (by simp [he])]

def getHead : Head :=
  ⟨.get, "/".toList, ⟨1, 1⟩, []⟩

/-- A GET without headers. -/
def getMessage : Message :=
  ⟨getHead, []⟩

def postHead (length : Nat) : Head :=
  ⟨.post, "/".toList, ⟨1, 1⟩, [⟨"Content-Length".toList, to_string length⟩]⟩

/-- A POST that says how long its body is. -/
def postMessage (body : Bytes) : Message :=
  ⟨postHead body.length, body⟩

theorem plain_request_line {method : Text} (h : method.length ≤ 7) :
    (method ++ ' ' :: ("/".toList ++ ' ' :: HTTPVersion.text ⟨1, 1⟩)).length < MAX_LINE_BYTES := by
  rw [show HTTPVersion.text ⟨1, 1⟩ = "HTTP/1.1".toList from rfl]
  simp [MAX_LINE_BYTES]
  omega

theorem getMessage_wellFormed : getMessage.WellFormed where
  head :=
    { method := by
        change "GET".toList ≠ [] ∧ ∀ c ∈ "GET".toList, c.toNat < 0x80 ∧ isWhitespace c = false
        simp [isWhitespace]
      named := by decide
      path := by simp [getMessage, getHead]
      version := by decide
      headers := by simp [getMessage, getHead]
      few := by decide
      short := plain_request_line (by decide) }
  supported := by decide
  expects := by decide
  plain := by decide
  encoding := by decide
  length := by decide

theorem content_length_wellFormed {n : Nat} (h : n < 2 ^ 64) :
    Header.WellFormed ⟨"Content-Length".toList, to_string n⟩ where
  field := by simp [isWhitespace]
  value := fun c hc => by
    have hdigit := isDigit_of_mem_to_string hc
    refine ⟨(Char.isDigit_iff_toNat.mp hdigit).2.trans_lt (by decide), ?_⟩
    rintro rfl
    cases hdigit
  trimmed := trim_of_not_whitespace fun c hc => not_whitespace_of_isDigit (isDigit_of_mem_to_string hc)
  short := by
    have hdigits := length_to_string_le h
    simp [Header.line, MAX_LINE_BYTES]
    omega

/-- A POST with any body is well formed. -/
theorem postMessage_wellFormed {body : Bytes} (h : body.length < 2 ^ 64) : (postMessage body).WellFormed where
  head :=
    { method := by
        change "POST".toList ≠ [] ∧ ∀ c ∈ "POST".toList, c.toNat < 0x80 ∧ isWhitespace c = false
        simp [isWhitespace]
      named := by rfl
      path := by simp [postMessage, postHead]
      version := by simp [postMessage, postHead, versions]
      headers := fun header hheader => by
        rw [List.mem_singleton.mp hheader]
        exact content_length_wellFormed h
      few := by simp [postMessage, postHead, MAX_HEADERS]
      short := plain_request_line (show 4 ≤ 7 by decide) }
  supported := by rfl
  expects := by rfl
  plain := by rfl
  encoding := by rfl
  length := by
    have hlength : content_length (postHead body.length).headers = parse 64 (to_string body.length) := by rfl
    have hparse := parse_to_string (⟨body.length, h⟩ : U64)
    rw [postMessage, hlength, hparse]
    rfl

/-- Pipelined requests are read back as they were sent, each handler is given its own body
and nothing of another's, and what follows the last is left on the connection, whatever
part of each body its handler asks for, as long as the drain covers what it does not. -/
theorem pipelined_requests_served {exchanges : List (Message × Nat)} (hwf : ∀ e ∈ exchanges, e.1.WellFormed)
    (hdrained : ∀ e ∈ exchanges, e.1.body.length ≤ e.2 + MAX_DRAIN)
    (hlast : ∀ e ∈ exchanges.dropLast, is_last e.1.head = false) (ending : Ending) (rest : Bytes) :
    serve chunked ending false (exchanges.map Prod.snd) (exchanges.flatMap (fun e => e.1.render) ++ rest) =
      (exchanges.map fun e => ⟨e.1.head, e.1.body.take e.2⟩, rest) :=
  serve_exchanges chunked hwf hdrained hlast ending rest

def exchanges : List (Message × Nat) := [(postMessage [65, 66, 67], 1), (getMessage, 0)]

theorem exchanges_wellFormed : ∀ e ∈ exchanges, e.1.WellFormed := by
  intro e he
  simp only [exchanges, List.mem_cons, List.not_mem_nil, or_false] at he
  obtain rfl | rfl := he
  · exact postMessage_wellFormed (show 3 < 2 ^ 64 by decide)
  · exact getMessage_wellFormed

theorem pipelined_requests_served_post_get :
    serve (fun _ _ => ([], [])) .eof false [1, 0] (exchanges.flatMap (fun e => e.1.render) ++ [1]) =
      ([⟨postHead 3, [65]⟩, ⟨getHead, []⟩], [1]) :=
  pipelined_requests_served (fun _ _ => ([], [])) exchanges_wellFormed
    (by simp [exchanges, postMessage, getMessage, MAX_DRAIN])
    (fun e he => List.mem_singleton.mp he ▸ rfl) .eof [1]

/-- What lies beyond the drain of a body that its handler leaves unread is served as the
requests it spells: their sender is the sender of the body. -/
theorem undrained_requests_served {m : Message} {asked : Nat} {hidden : List (Message × Nat)} (hm : m.WellFormed)
    (hkept : is_last m.head = false) (hwf : ∀ e ∈ hidden, e.1.WellFormed)
    (hdrained : ∀ e ∈ hidden, e.1.body.length ≤ e.2 + MAX_DRAIN)
    (hlast : ∀ e ∈ hidden.dropLast, is_last e.1.head = false)
    (hbody : m.body.drop (asked + MAX_DRAIN) = hidden.flatMap fun e => e.1.render) (ending : Ending) (rest : Bytes) :
    serve chunked ending false (asked :: hidden.map Prod.snd) (m.render ++ rest) =
      (⟨m.head, m.body.take asked⟩ :: hidden.map fun e => ⟨e.1.head, e.1.body.take e.2⟩, rest) := by
  rw [serve_message chunked hm, hkept, hbody, serve_exchanges chunked hwf hdrained hlast]

def undrained : Bytes :=
  List.replicate MAX_DRAIN 0 ++ getMessage.render

theorem undrained_length : undrained.length = MAX_DRAIN + getMessage.render.length := by
  rw [undrained, List.length_append, List.length_replicate]

theorem getMessage_render_length : getMessage.render.length = 18 := by
  rfl

theorem undrained_requests_served_get :
    serve (fun _ _ => ([], [])) .eof false [0, 0] ((postMessage undrained).render ++ [1]) =
      ([⟨postHead undrained.length, undrained.take 0⟩, ⟨getHead, []⟩], [1]) :=
  undrained_requests_served (fun _ _ => ([], []))
    (postMessage_wellFormed (by rw [undrained_length, getMessage_render_length, MAX_DRAIN]; decide)) (by rfl)
    (List.forall_mem_singleton (a := (getMessage, 0)) |>.mpr getMessage_wellFormed)
    (by simp [getMessage, MAX_DRAIN]) (by simp)
    (by
      rw [List.flatMap_singleton]
      exact List.drop_left' (by rw [List.length_replicate, Nat.zero_add])) .eof [1]

end message

section bounded

variable (ending ending' : Ending)

/-- More input after what was read. -/
def extend {A : Type} (more : Bytes) (result : Except ReadError (A × Bytes)) : Except ReadError (A × Bytes) :=
  result.map fun read => (read.1, read.2 ++ more)

/-- A line is read or turned down within `MAX_LINE_BYTES` and one bytes. -/
theorem read_line_early {buf : Bytes} {cr : Bool} {input : Bytes} (more : Bytes)
    (hbuf : buf.length ≤ MAX_LINE_BYTES) (hlong : MAX_LINE_BYTES < buf.length + input.length) :
    read_line ending' buf cr (input ++ more) = extend more (read_line ending buf cr input) ∧
      ∀ line rest, read_line ending buf cr input = .ok (line, rest) →
        buf.length + input.length ≤ rest.length + MAX_LINE_BYTES + 1 := by
  induction input generalizing buf cr with
  | nil =>
    rw [List.length_nil] at hlong
    omega
  | cons byte input ih =>
    rw [List.cons_append, read_line, read_line]
    split
    · cases from_ascii buf.dropLast with
      | none => exact ⟨rfl, fun _ _ hline => by cases hline⟩
      | some line =>
        refine ⟨rfl, fun _ rest hline => ?_⟩
        obtain ⟨rfl, rfl⟩ := Prod.mk.inj (Except.ok.inj hline)
        rw [List.length_cons]
        omega
    · split
      · exact ⟨rfl, fun _ _ hline => by cases hline⟩
      · rename_i hroom
        have hlength : (buf ++ [byte]).length = buf.length + 1 := by simp
        rw [List.length_cons] at hlong ⊢
        obtain ⟨hsame, hrest⟩ := @ih (buf ++ [byte]) (decide (byte = 13)) (by omega) (by omega)
        refine ⟨hsame, fun line rest hline => ?_⟩
        have hle := hrest line rest hline
        omega

theorem read_next_line_early {input : Bytes} (more : Bytes) (hlong : MAX_LINE_BYTES < input.length) :
    read_next_line ending' (input ++ more) = extend more (read_next_line ending input) ∧
      ∀ line rest, read_next_line ending input = .ok (line, rest) →
        input.length ≤ rest.length + (MAX_LINE_BYTES + 1) := by
  obtain ⟨hsame, hrest⟩ := @read_line_early ending ending' [] false input more (Nat.zero_le _) (by simpa using hlong)
  refine ⟨hsame, fun line rest hline => ?_⟩
  simpa [Nat.add_assoc] using hrest line rest hline

theorem read_headers_early (version : HTTPVersion) {room : Nat} (done : List Header) {input : Bytes} (more : Bytes)
    (hlong : (room + 1) * (MAX_LINE_BYTES + 1) ≤ input.length) :
    read_headers ending' version room done (input ++ more) =
      extend more (read_headers ending version room done input) := by
  induction room generalizing done input with
  | zero =>
    obtain ⟨hsame, _⟩ := read_next_line_early ending ending' more
      (show MAX_LINE_BYTES < input.length by omega)
    rw [read_headers, read_headers, hsame]
    cases read_next_line ending input with
    | error e => rfl
    | ok read =>
      simp only [extend, Except.map, bind, Except.bind]
      split <;> rfl
  | succ room ih =>
    have hstep : (room + 1 + 1) * (MAX_LINE_BYTES + 1) = (room + 1) * (MAX_LINE_BYTES + 1) + (MAX_LINE_BYTES + 1) := by
      ring
    obtain ⟨hsame, hrest⟩ := read_next_line_early ending ending' more
      (show MAX_LINE_BYTES < input.length by omega)
    rw [read_headers, read_headers, hsame]
    cases hread : read_next_line ending input with
    | error e => rfl
    | ok read =>
      obtain ⟨line, rest⟩ := read
      have hle := hrest line rest hread
      simp only [extend, Except.map, bind, Except.bind]
      split
      · rfl
      · cases Header.from_str (trim line) with
        | none => rfl
        | some header => exact ih _ (by omega)

/-- How much of a connection is read for one head, at most. -/
def MAX_HEAD_BYTES : Nat :=
  (MAX_HEADERS + 2) * (MAX_LINE_BYTES + 1)

/-- Whatever a client sends, its request is read or turned down by the time the first
`MAX_HEAD_BYTES` bytes have come: what follows changes nothing and is left unread. -/
theorem head_decided_early {input : Bytes} (hlong : MAX_HEAD_BYTES ≤ input.length) (ending ending' : Ending)
    (more : Bytes) : read_head ending' (input ++ more) = extend more (read_head ending input) := by
  have hbytes : MAX_HEAD_BYTES = (MAX_HEADERS + 1) * (MAX_LINE_BYTES + 1) + (MAX_LINE_BYTES + 1) := by
    rw [MAX_HEAD_BYTES]
    ring
  obtain ⟨hsame, hrest⟩ := read_next_line_early ending ending' more
    (show MAX_LINE_BYTES < input.length by omega)
  rw [read_head, read_head, hsame]
  cases hread : read_next_line ending input with
  | error e => rfl
  | ok read =>
    obtain ⟨line, rest⟩ := read
    have hle := hrest line rest hread
    simp only [extend, Except.map, bind, Except.bind]
    cases parse_request_line (trim line) with
    | error e => rfl
    | ok parsed =>
      obtain ⟨method, path, version⟩ := parsed
      have hheaders := read_headers_early ending ending' version [] more
        (show (MAX_HEADERS + 1) * (MAX_LINE_BYTES + 1) ≤ rest.length by omega)
      simp only [hheaders, extend, Except.map]
      cases read_headers ending version MAX_HEADERS [] rest <;> rfl

/-- A request with much behind it. -/
def trailed : Bytes := getHead.render ++ List.replicate MAX_HEAD_BYTES 65

theorem trailed_length : MAX_HEAD_BYTES ≤ trailed.length := by
  rw [trailed, List.length_append, List.length_replicate]
  exact Nat.le_add_left _ _

theorem head_decided_early_get :
    read_head .timed_out (trailed ++ [13, 10]) = .ok (getHead, List.replicate MAX_HEAD_BYTES 65 ++ [13, 10]) := by
  rw [head_decided_early trailed_length .eof .timed_out [13, 10], trailed,
    read_head_render .eof (h := getHead) getMessage_wellFormed.head (List.replicate MAX_HEAD_BYTES 65)]
  rfl

end bounded

end client

end tiny_http
