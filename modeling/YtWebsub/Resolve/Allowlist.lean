import YtWebsub.Base.Url
import YtWebsub.Resolve

open rust rust.utf8 rust.text rust.map

namespace yt_websub.resolve

section Requests

variable {m : Type → Type} [Monad m]

/-- `resolve` with its GET request as an effect. -/
def resolve_with (get : Text → m (Option Bytes)) (input : Text) (cache : HashMap Text Text) :
    m (Option Text × HashMap Text Text) := do
  let s := trim input
  if s = [] then return (none, cache)
  if is_channel_id s then return (some s, cache)
  if let some uc := extract_uc s then return (some uc, cache)
  if let some uc := (cache.lookup s).filter is_channel_id then return (some uc, cache)
  let url := normalize_url s
  if !is_allowed_url url then return (none, cache)
  let response ← get url
  match (page response).bind extract_uc with
  | some uc => return (some uc, cache.insert s uc)
  | none => return (none, cache)

end Requests

/-- A GET that notes the URL it requests. -/
def traced (fetch : Text → Option Bytes) (url : Text) : StateM (List Text) (Option Bytes) := do
  modify (· ++ [url])
  return fetch url

/-- The URLs that `resolve` requests, in order. -/
def requests (fetch : Text → Option Bytes) (input : Text) (cache : HashMap Text Text) : List Text :=
  ((resolve_with (traced fetch) input cache).run []).run.2

/-- Noting the requests changes no answer, and the only URL ever requested has passed the check. -/
theorem run_traced (fetch : Text → Option Bytes) (input : Text) (cache : HashMap Text Text) :
    ((resolve_with (traced fetch) input cache).run []).run.1 = resolve fetch input cache ∧
      ∀ url ∈ requests fetch input cache, is_allowed_url url = true := by
  unfold requests resolve_with resolve
  dsimp only
  by_cases hempty : trim input = []
  · simp [hempty]
  by_cases hid : is_channel_id (trim input) = true
  · simp [hempty, hid]
  cases hextract : extract_uc (trim input) with
  | some uc => simp [hempty, hid]
  | none =>
    cases hcached : (cache.lookup (trim input)).filter is_channel_id with
    | some uc => simp [hempty, hid]
    | none =>
      by_cases hallowed : is_allowed_url (normalize_url (trim input)) = true
      · cases hpage : (page (fetch (normalize_url (trim input)))).bind extract_uc <;>
          simp [hempty, hid, hallowed, hpage, traced]
      · simp [hempty, hid, hallowed]

/-- No character of an allowed host, in whatever case, means anything to a URL parser. -/
theorem plain_of_allowed {host : Text} (h : (host.rdropWhile (· = '.')).map toAsciiLower ∈ ALLOWED_HOSTS) :
    host ≠ [] ∧ ∀ c ∈ host, isPlain c = true := by
  have hallowed : ∀ name ∈ ALLOWED_HOSTS, name ≠ [] ∧ name.all isPlain = true := by decide +kernel
  obtain ⟨hne, hplain⟩ := hallowed _ h
  refine ⟨fun hnil => hne (by rw [hnil]; rfl), fun c hc => ?_⟩
  rw [← host.rdropWhile_append_rtakeWhile (p := (· = '.'))] at hc
  rcases List.mem_append.mp hc with hname | hdot
  · exact isPlain_of_toAsciiLower (List.all_eq_true.mp hplain _ (List.mem_map_of_mem hname))
  · obtain rfl : c = '.' := by simpa using List.mem_rtakeWhile_imp hdot
    decide

/-- An allowed URL is a host of the list, then perhaps a port without `@`, then what ends the authority. -/
theorem is_allowed_url_shape {url : Text} (h : is_allowed_url url = true) :
    ∃ host port rest : Text, url = "https://".toList ++ (host ++ (port ++ rest)) ∧
      (host.rdropWhile (· = '.')).map toAsciiLower ∈ ALLOWED_HOSTS ∧
      (port = [] ∨ port.head? = some ':') ∧ '@' ∉ port ∧
      (rest = [] ∨ ∃ c tail, rest = c :: tail ∧ isStripped c = false ∧ endsAuthority c = true) := by
  rw [is_allowed_url, strip_start] at h
  split_ifs at h with hscheme
  · obtain ⟨rest, rfl⟩ := List.isPrefixOf_iff_prefix.mp hscheme
    rw [List.drop_left] at h
    dsimp only at h
    generalize hp : (fun c : Char => decide (c ≠ '/') && decide (c ≠ '?') && decide (c ≠ '#')) = p at h
    split_ifs at h with huser
    refine ⟨(rest.takeWhile p).takeWhile (· ≠ ':'), (rest.takeWhile p).dropWhile (· ≠ ':'), rest.dropWhile p,
      ?_, List.contains_iff_mem.mp h, ?_, fun hat => huser ((List.dropWhile_sublist _).subset hat), ?_⟩
    · rw [← List.append_assoc (List.takeWhile _ _), List.takeWhile_append_dropWhile,
        List.takeWhile_append_dropWhile]
    · have hhead := (rest.takeWhile p).head?_dropWhile_not (· ≠ ':')
      cases hport : (rest.takeWhile p).dropWhile (· ≠ ':') with
      | nil => exact Or.inl rfl
      | cons c tail =>
        rw [hport] at hhead
        exact Or.inr (by simpa using hhead)
    · have hhead := rest.head?_dropWhile_not p
      cases hrest : rest.dropWhile p with
      | nil => exact Or.inl rfl
      | cons c tail =>
        rw [hrest, ← hp] at hhead
        have hc : c = '/' ∨ c = '?' ∨ c = '#' := by simpa [or_iff_not_imp_left] using hhead
        exact Or.inr ⟨c, tail, rfl, by rcases hc with rfl | rfl | rfl <;> exact ⟨rfl, rfl⟩⟩

/-- Every request goes over `https` to a host of the list, as a URL parser reads it. -/
theorem requests_stay_on_allowed_hosts (fetch : Text → Option Bytes) (input : Text) (cache : HashMap Text Text) :
    ((resolve_with (traced fetch) input cache).run []).run.1 = resolve fetch input cache ∧
      ∀ url ∈ requests fetch input cache, ∃ host ∈ ALLOWED_HOSTS,
        Url.parse url = some ⟨"https".toList, host⟩ := by
  obtain ⟨hanswer, hchecked⟩ := run_traced fetch input cache
  refine ⟨hanswer, fun url hurl => ?_⟩
  obtain ⟨host, port, rest, rfl, hhost, hport, huser, hrest⟩ := is_allowed_url_shape (hchecked url hurl)
  obtain ⟨hne, hplain⟩ := plain_of_allowed hhost
  exact ⟨_, hhost, Url.parse_https hplain hne hport huser hrest⟩

theorem requests_stay_on_allowed_hosts_handle :
    let fetch : Text → Option Bytes := fun _ => none
    let url := "https://www.youtube.com/@handle".toList
    requests fetch "@handle".toList ∅ = [url] ∧
      ∃ host ∈ ALLOWED_HOSTS, Url.parse url = some ⟨"https".toList, host⟩ := by
  intro fetch url
  have hrequest : requests fetch "@handle".toList ∅ = [url] := by decide
  exact ⟨hrequest, (requests_stay_on_allowed_hosts fetch "@handle".toList ∅).2 url (by rw [hrequest]; decide)⟩

end yt_websub.resolve
