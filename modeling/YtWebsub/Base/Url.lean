import YtWebsub.Base.Search

open rust.utf8

namespace rust.text

/-- What a request goes by: the scheme of its URL, and the host it connects to. -/
structure Url where
  scheme : Text
  host : Text
  deriving DecidableEq, Repr

/-- TAB, CR and LF, which a URL parser removes wherever they stand. -/
def isStripped (c : Char) : Bool :=
  c = '\t' || c = '\r' || c = '\n'

/-- What ends the authority of a URL with a special scheme. -/
def endsAuthority (c : Char) : Bool :=
  c = '/' || c = '\\' || c = '?' || c = '#'

/-- What stands before the colon of the port: a colon inside brackets belongs to an address. -/
def beforePort : Bool → Text → Text
  | _, [] => []
  | inside, c :: s =>
    if c = ':' && !inside then []
    else c :: beforePort (c = '[' || (inside && c ≠ ']')) s

/-- The host of an authority: behind the last `@`, before the port, without trailing dots, in lower case. -/
def hostOf (authority : Text) : Text :=
  ((beforePort false (authority.rtakeWhile (· ≠ '@'))).rdropWhile (· = '.')).map toAsciiLower

/-- The URL as a client of `https` reads it: any slashes may stand between scheme and authority. -/
def Url.parse (input : Text) : Option Url :=
  (split_once [':'] (input.filter (!isStripped ·))).map fun (scheme, rest) =>
    let rest := rest.dropWhile fun c => c = '/' || c = '\\'
    { scheme := scheme.map toAsciiLower
      host := hostOf (rest.takeWhile (!endsAuthority ·)) }

/-- The characters that no part of a URL parser stops at. -/
def isPlain (c : Char) : Bool :=
  !isStripped c && !endsAuthority c && c ≠ '@' && c ≠ ':' && c ≠ '[' && c ≠ ']'

theorem filter_plain {s : Text} (h : ∀ c ∈ s, isPlain c = true) : s.filter (!isStripped ·) = s := by
  apply List.filter_eq_self.mpr
  intro c hc
  have hplain := h c hc
  simp only [isPlain, Bool.and_eq_true] at hplain
  exact hplain.1.1.1.1.1

theorem takeWhile_plain {s : Text} (h : ∀ c ∈ s, isPlain c = true) (rest : Text) :
    (s ++ rest).takeWhile (!endsAuthority ·) = s ++ rest.takeWhile (!endsAuthority ·) := by
  apply List.takeWhile_append_of_pos
  intro c hc
  have hplain := h c hc
  simp only [isPlain, Bool.and_eq_true] at hplain
  exact hplain.1.1.1.1.2

/-- A plain host is read up to the end of the authority or the colon of its port. -/
theorem beforePort_plain {s : Text} (h : ∀ c ∈ s, isPlain c = true) {rest : Text}
    (hrest : rest = [] ∨ rest.head? = some ':') : beforePort false (s ++ rest) = s := by
  induction s with
  | nil =>
    rcases hrest with rfl | hcolon
    · rfl
    · obtain ⟨port, rfl⟩ := List.head?_eq_some_iff.mp hcolon
      rfl
  | cons c s ih =>
    obtain ⟨hc, hs⟩ := List.forall_mem_cons.mp h
    simp only [isPlain, Bool.and_eq_true, decide_eq_true_eq] at hc
    obtain ⟨⟨⟨_, hcolon⟩, hopen⟩, _⟩ := hc
    rw [List.cons_append, beforePort, if_neg (by simp [hcolon])]
    simp only [hopen, decide_false, Bool.false_and, Bool.or_self, ih hs]

/-- The host that an authority of a plain host and an optional port names. -/
theorem hostOf_plain {s : Text} (h : ∀ c ∈ s, isPlain c = true) {rest : Text}
    (hrest : rest = [] ∨ rest.head? = some ':') (huser : '@' ∉ rest) :
    hostOf (s ++ rest) = (s.rdropWhile (· = '.')).map toAsciiLower := by
  have hself : (s ++ rest).rtakeWhile (· ≠ '@') = s ++ rest := by
    rw [List.rtakeWhile_eq_self_iff]
    intro c hc
    rcases List.mem_append.mp hc with hc | hc
    · have hplain := h c hc
      simp only [isPlain, Bool.and_eq_true, decide_eq_true_eq] at hplain
      simpa using hplain.1.1.1.2
    · simpa using fun hat : c = '@' => huser (hat ▸ hc)
  rw [hostOf, hself, beforePort_plain h hrest]

/-- A character is plain if it is so in lower case. -/
theorem isPlain_of_toAsciiLower {c : Char} (h : isPlain (toAsciiLower c) = true) : isPlain c = true := by
  by_cases hupper : 'A' ≤ c ∧ c ≤ 'Z'
  · have hletter : 65 ≤ c.toNat ∧ c.toNat ≤ 90 := hupper
    have hne : ∀ d : Char, d.toNat < 65 ∨ 90 < d.toNat → c ≠ d := by
      rintro d hd rfl
      omega
    simp [isPlain, isStripped, endsAuthority, hne]
  · rwa [toAsciiLower, if_neg hupper] at h

/-- What a parser takes for the port of a URL: no more than stands between the host and the end of the authority. -/
theorem takeWhile_port {port rest : Text} (hport : port = [] ∨ port.head? = some ':') (huser : '@' ∉ port)
    (hrest : rest = [] ∨ ∃ c tail, rest = c :: tail ∧ isStripped c = false ∧ endsAuthority c = true) :
    let read := ((port ++ rest).filter (!isStripped ·)).takeWhile (!endsAuthority ·)
    (read = [] ∨ read.head? = some ':') ∧ '@' ∉ read := by
  have hstop : (rest.filter (!isStripped ·)).takeWhile (!endsAuthority ·) = [] := by
    rcases hrest with rfl | ⟨c, tail, rfl, hstripped, hends⟩
    · rfl
    · rw [List.filter_cons_of_pos (by simp [hstripped]), List.takeWhile_cons_of_neg (by simp [hends])]
  have hread : ((port ++ rest).filter (!isStripped ·)).takeWhile (!endsAuthority ·) =
      (port.filter (!isStripped ·)).takeWhile (!endsAuthority ·) := by
    rw [List.filter_append, List.takeWhile_append, hstop, List.append_nil]
    split
    · rename_i hall
      exact ((List.takeWhile_prefix _).eq_of_length hall).symm
    · rfl
  dsimp only
  rw [hread]
  refine ⟨?_, fun hat => huser (List.mem_filter.mp ((List.takeWhile_sublist _).subset hat)).1⟩
  rcases hport with rfl | hcolon
  · exact Or.inl rfl
  · obtain ⟨digits, rfl⟩ := List.head?_eq_some_iff.mp hcolon
    exact Or.inr rfl

/-- A plain host is read from a URL whatever stands in its port and behind it, unless the port holds an `@`. -/
theorem Url.parse_https {host port rest : Text} (hhost : ∀ c ∈ host, isPlain c = true) (hne : host ≠ [])
    (hport : port = [] ∨ port.head? = some ':') (huser : '@' ∉ port)
    (hrest : rest = [] ∨ ∃ c tail, rest = c :: tail ∧ isStripped c = false ∧ endsAuthority c = true) :
    Url.parse ("https://".toList ++ (host ++ (port ++ rest))) =
      some ⟨"https".toList, (host.rdropWhile (· = '.')).map toAsciiLower⟩ := by
  obtain ⟨hcolon, hat⟩ := takeWhile_port hport huser hrest
  have hfilter : ("https://".toList ++ (host ++ (port ++ rest))).filter (!isStripped ·) =
      "https".toList ++ ':' :: '/' :: '/' :: (host ++ (port ++ rest).filter (!isStripped ·)) := by
    rw [List.filter_append, List.filter_append host, filter_plain hhost]
    rfl
  have hsplit : ∀ tail : Text, split_once [':'] ("https".toList ++ ':' :: tail) = some ("https".toList, tail) := by
    intro tail
    rw [split_once, find_singleton (by decide)]
    rfl
  have hslashes : ∀ tail : Text,
      ('/' :: '/' :: (host ++ tail)).dropWhile (fun c => c = '/' || c = '\\') = host ++ tail := by
    intro tail
    obtain ⟨c, host, rfl⟩ := List.exists_cons_of_ne_nil hne
    have hc := hhost c List.mem_cons_self
    simp only [isPlain, endsAuthority, Bool.and_eq_true, Bool.not_eq_true', Bool.or_eq_false_iff] at hc
    rw [List.dropWhile_cons_of_pos rfl, List.dropWhile_cons_of_pos rfl, List.cons_append,
      List.dropWhile_cons_of_neg (by simp [hc.1.1.1.1.2])]
  rw [Url.parse, hfilter, hsplit, Option.map_some]
  dsimp only
  rw [hslashes, takeWhile_plain hhost, hostOf_plain hhost hcolon hat]
  rfl

end rust.text
