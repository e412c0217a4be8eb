import FleetOrchestrator.Encoding.Words

/-! The address that a request counts under: its peer's, or behind a proxy one of a header. -/

namespace FleetOrchestrator.Accounts

open Core Encoding

/-- How addresses are read and written. -/
structure IpNotation (α : Type) where
  parse : List Char → Option α
  display : α → List Char
  parse_display : ∀ a, parse (display a) = some a

/-- The bytes of a value, as characters. -/
abbrev HeaderValue := List Char

/-- The values of each header, by its name in small letters, in the order of their lines. -/
abbrev HeaderMap := String → List HeaderValue

def HeaderMap.get (headers : HeaderMap) (name : String) : Option HeaderValue := (headers name).head?

def isVisibleAscii (c : Char) : Bool := (32 ≤ c.toNat && c.toNat < 127) || c = '\t'

def HeaderValue.toStr (v : HeaderValue) : Option (List Char) :=
  if v.all isVisibleAscii then some v else none

def trimmed (s : List Char) : List Char := trimMatches isWhiteSpace s

def parts (value : List Char) : List (List Char) := (value.splitOn ',').map trimmed

section Extraction

variable {α : Type} [DecidableEq α] (N : IpNotation α) (env : Option (List Char))

def trustedProxies : List α :=
  ((env.getD []).splitOn ',').filterMap fun s => N.parse (trimmed s)

/-- Read from the right, the first address that no proxy has. -/
def lastUntrusted (trusted : List α) (parts : List (List Char)) : Option α :=
  parts.reverse.findSome? fun part => (N.parse part).filter fun ip => ip ∉ trusted

def connectingIp (headers : HeaderMap) : Option α :=
  ((headers.get "cf-connecting-ip").bind HeaderValue.toStr).bind fun s => N.parse (trimmed s)

def extractClientIp (headers : HeaderMap) (peer : α) : List Char :=
  let trusted := trustedProxies N env
  if peer ∈ trusted then
    match connectingIp N headers with
    | some ip => N.display ip
    | none =>
      match (headers.get "x-forwarded-for").bind HeaderValue.toStr with
      | some xff =>
        match lastUntrusted N trusted (parts xff) with
        | some ip => N.display ip
        | none =>
          match (parts xff).head?.bind N.parse with
          | some ip => N.display ip
          | none => N.display peer
      | none => N.display peer
  else N.display peer

end Extraction

section Forwarding

variable {α : Type} (N : IpNotation α)

/-- What a proxy writes down for an address. -/
structure ProxyEntry where
  addr : α
  text : HeaderValue
  reads : N.parse (trimmed text) = some addr
  visible : text.all isVisibleAscii = true
  single : ',' ∉ text

variable {N}

/-- The entry comes last in the last line. -/
def appendEntry (lines : List HeaderValue) (e : ProxyEntry N) : List HeaderValue :=
  match lines.getLast? with
  | none => [e.text]
  | some line => lines.dropLast ++ [line ++ ',' :: e.text]

/-- The headers that the client sends, once they have gone through the proxies. -/
def forwarded (sent : HeaderMap) (entries : List (ProxyEntry N)) : HeaderMap := fun name =>
  if name = "x-forwarded-for" then entries.foldl appendEntry (sent name) else sent name

/-- The rightmost of the appended addresses that is not a trusted proxy. -/
def Rightmost (trusted : List α) (entries : List (ProxyEntry N)) (r : α) : Prop :=
  r ∉ trusted ∧ ∃ before e after, entries = before ++ e :: after ∧ e.addr = r ∧
    ∀ e' ∈ after, e'.addr ∈ trusted

end Forwarding

section Lines

variable {α : Type} {N : IpNotation α} {line : HeaderValue}
  {entries : List (ProxyEntry N)}

theorem appendEntry_one (e : ProxyEntry N) : appendEntry [line] e = [line ++ ',' :: e.text] := rfl

/-- Where there are more lines than one, the first stays as it is. -/
theorem appendEntry_more (l l' : HeaderValue) (lines : List HeaderValue) (e : ProxyEntry N) :
    ∃ l'' lines', appendEntry (l :: l' :: lines) e = l :: l'' :: lines' := by
  have hlast : (l :: l' :: lines).getLast? = some ((l' :: lines).getLast (List.cons_ne_nil _ _)) := by
    rw [List.getLast?_cons_cons, List.getLast?_eq_some_getLast]
  obtain ⟨l'', lines', htail⟩ := List.exists_cons_of_ne_nil (List.append_ne_nil_of_right_ne_nil
    (l' :: lines).dropLast (List.cons_ne_nil
      ((l' :: lines).getLast (List.cons_ne_nil _ _) ++ ',' :: e.text) []))
  refine ⟨l'', lines', ?_⟩
  rw [appendEntry, hlast, ← htail]
  rfl

theorem foldl_more (l l' : HeaderValue) (lines : List HeaderValue) (entries : List (ProxyEntry N)) :
    ∃ l'' lines', entries.foldl appendEntry (l :: l' :: lines) = l :: l'' :: lines' := by
  induction entries generalizing l' lines with
  | nil => exact ⟨l', lines, rfl⟩
  | cons e entries ih =>
    obtain ⟨l₁, lines₁, h⟩ := appendEntry_more l l' lines e
    rw [List.foldl_cons, h]
    exact ih l₁ lines₁

theorem parts_append (e : ProxyEntry N) : parts (line ++ ',' :: e.text) = parts line ++ [trimmed e.text] := by
  rw [parts, List.splitOn_append_cons_self, List.splitOn_eq_singleton e.single, List.map_append]
  rfl

theorem foldl_one (line : HeaderValue) (entries : List (ProxyEntry N)) :
    ∃ line', entries.foldl appendEntry [line] = [line'] ∧
    parts line' = parts line ++ entries.map (fun e => trimmed e.text) ∧
    line'.all isVisibleAscii = line.all isVisibleAscii := by
  induction entries generalizing line with
  | nil => exact ⟨line, rfl, (List.append_nil _).symm, rfl⟩
  | cons e entries ih =>
    obtain ⟨line', hline, hparts, hvisible⟩ := ih (line ++ ',' :: e.text)
    refine ⟨line', hline, ?_, ?_⟩
    · rw [hparts, parts_append, List.append_assoc]
      rfl
    · have hcomma : isVisibleAscii ',' = true := rfl
      rw [hvisible, List.all_append, List.all_cons, e.visible, hcomma, Bool.and_true, Bool.and_true]

end Lines

section Results

variable {α : Type} [DecidableEq α] {N : IpNotation α} {env : Option (List Char)}
  {trusted : List α} {entries : List (ProxyEntry N)} {r peer : α} {sent : HeaderMap}
  {ps : List (List Char)}

theorem lastUntrusted_appended (hr : Rightmost trusted entries r) (ps : List (List Char)) :
    lastUntrusted N trusted (ps ++ entries.map fun e => trimmed e.text) = some r := by
  obtain ⟨hr, before, e, after, rfl, rfl, hafter⟩ := hr
  have hskip : (after.map fun e => trimmed e.text).reverse.findSome?
      (fun part => (N.parse part).filter fun ip => ip ∉ trusted) = none := by
    rw [List.findSome?_eq_none_iff]
    intro part hpart
    obtain ⟨e', he', rfl⟩ := List.mem_map.mp (List.mem_reverse.mp hpart)
    rw [e'.reads, Option.filter_some, if_neg]
    simpa using hafter e' he'
  rw [lastUntrusted, List.map_append, List.map_cons, ← List.append_assoc, List.append_cons,
    List.reverse_append, List.findSome?_append, hskip, Option.none_or, List.reverse_append,
    List.reverse_singleton, List.singleton_append, List.findSome?_cons, e.reads,
    Option.filter_some, if_pos (by simpa using hr)]

theorem lastUntrusted_mem {ip : α} (h : lastUntrusted N trusted ps = some ip) : ip ∉ trusted := by
  obtain ⟨part, -, hpart⟩ := List.exists_of_findSome?_eq_some h
  have := (Option.filter_eq_some_iff.mp hpart).2
  simpa using this

/-- Where all that can be read are proxies, the first entry is one. -/
theorem head_trusted {ip : α} (h : lastUntrusted N trusted ps = none)
    (hip : ps.head?.bind N.parse = some ip) : ip ∈ trusted := by
  obtain ⟨part, hpart, hparse⟩ := Option.bind_eq_some_iff.mp hip
  have hnone := List.findSome?_eq_none_iff.mp h part
    (List.mem_reverse.mpr (List.mem_of_head? hpart))
  rw [hparse, Option.filter_some] at hnone
  by_contra hnot
  rw [if_pos (by simpa using hnot)] at hnone
  cases hnone

omit [DecidableEq α] in
theorem display_inj {a b : α} : N.display a = N.display b ↔ a = b := by
  constructor
  · intro h
    have hb := N.parse_display b
    rw [← h, N.parse_display] at hb
    exact Option.some.inj hb
  · exact congrArg N.display

omit [DecidableEq α] in
theorem connectingIp_forwarded :
    connectingIp N (forwarded sent entries) = connectingIp N sent := rfl

/-- What becomes of the first line of `X-Forwarded-For`, as the peer hands it over. -/
def lineAnswer (N : IpNotation α) (trusted : List α) (peer : α) (line : HeaderValue) : List Char :=
  match line.toStr with
  | some xff =>
    match lastUntrusted N trusted (parts xff) with
    | some ip => N.display ip
    | none =>
      match (parts xff).head?.bind N.parse with
      | some ip => N.display ip
      | none => N.display peer
  | none => N.display peer

theorem lineAnswer_iff (hpeer : peer ∈ trusted) (hr : r ∉ trusted) (line : HeaderValue) :
    lineAnswer N trusted peer line = N.display r ↔
      line.all isVisibleAscii = true ∧ lastUntrusted N trusted (parts line) = some r := by
  rw [lineAnswer, HeaderValue.toStr]
  by_cases hvisible : line.all isVisibleAscii = true
  · rw [if_pos hvisible]
    dsimp only
    cases hlast : lastUntrusted N trusted (parts line) with
    | some ip => simp [hvisible, display_inj]
    | none =>
      refine iff_of_false ?_ nofun
      cases hhead : (parts line).head?.bind N.parse with
      | some ip =>
        intro h
        exact hr (display_inj.mp h ▸ head_trusted hlast hhead)
      | none =>
        intro h
        exact hr (display_inj.mp h ▸ hpeer)
  · rw [if_neg hvisible]
    refine iff_of_false ?_ fun h => hvisible h.1
    intro h
    exact hr (display_inj.mp h ▸ hpeer)

/-- The client has sent no address of its own that is read in place of the appended ones, unless it
happens to be the right one. -/
def Undisturbed (N : IpNotation α) (trusted : List α) (sent : HeaderMap) (r : α) : Prop :=
  match connectingIp N sent with
  | some ip => ip = r
  | none =>
    match sent "x-forwarded-for" with
    | [] => True
    | [line] => line.all isVisibleAscii = true
    | line :: _ :: _ =>
      line.all isVisibleAscii = true ∧ lastUntrusted N trusted (parts line) = some r

theorem forwarded_head (hr : Rightmost trusted entries r) (sent : HeaderMap) :
    ∃ line, (forwarded sent entries).get "x-forwarded-for" = some line ∧
      (connectingIp N sent = none → (line.all isVisibleAscii = true ∧
        lastUntrusted N trusted (parts line) = some r ↔ Undisturbed N trusted sent r)) := by
  have hget : (forwarded sent entries).get "x-forwarded-for" =
      (entries.foldl appendEntry (sent "x-forwarded-for")).head? := rfl
  rw [hget]
  cases hlines : sent "x-forwarded-for" with
  | nil =>
    have hne : entries ≠ [] := by
      obtain ⟨-, before, e, after, rfl, -⟩ := hr
      exact List.append_ne_nil_of_right_ne_nil _ (List.cons_ne_nil _ _)
    obtain ⟨e, es, rfl⟩ := List.exists_cons_of_ne_nil hne
    obtain ⟨line, hline, hparts, hvisible⟩ := foldl_one e.text es
    have hfirst : parts e.text = [trimmed e.text] := by
      rw [parts, List.splitOn_eq_singleton e.single]
      rfl
    have hlast := lastUntrusted_appended hr []
    rw [List.nil_append, List.map_cons, ← List.singleton_append, ← hfirst, ← hparts] at hlast
    refine ⟨line, congrArg List.head? hline, fun hcf => ?_⟩
    rw [Undisturbed, hcf, hlines]
    exact iff_of_true ⟨hvisible.trans e.visible, hlast⟩ trivial
  | cons line rest =>
    cases rest with
    | nil =>
      obtain ⟨line', hline, hparts, hvisible⟩ := foldl_one line entries
      have hlast := lastUntrusted_appended hr (parts line)
      rw [← hparts] at hlast
      refine ⟨line', congrArg List.head? hline, fun hcf => ?_⟩
      rw [Undisturbed, hcf, hlines, hvisible]
      exact and_iff_left hlast
    | cons line' rest =>
      obtain ⟨l', ls, hfold⟩ := foldl_more line line' rest entries
      refine ⟨line, congrArg List.head? hfold, fun hcf => ?_⟩
      rw [Undisturbed, hcf, hlines]

end Results

/-- The address of an untrusted peer is told whatever it sends. Behind trusted proxies it is the
rightmost address that they have appended and that is none of theirs, exactly if the client has not
sent anything that is read before it; it does not depend on what else the client has sent. -/
theorem extractClientIp_iff {α : Type} [DecidableEq α] (N : IpNotation α)
    (env : Option (List Char)) (peer : α) :
    (peer ∉ trustedProxies N env → ∀ headers, extractClientIp N env headers peer = N.display peer) ∧
      (peer ∈ trustedProxies N env → ∀ (entries : List (ProxyEntry N)) r,
        Rightmost (trustedProxies N env) entries r → ∀ sent : HeaderMap,
          (extractClientIp N env (forwarded sent entries) peer = N.display r ↔
            Undisturbed N (trustedProxies N env) sent r) ∧
          ∀ sent' : HeaderMap, Undisturbed N (trustedProxies N env) sent r →
            Undisturbed N (trustedProxies N env) sent' r →
              extractClientIp N env (forwarded sent entries) peer =
                extractClientIp N env (forwarded sent' entries) peer) := by
  constructor
  · intro hpeer headers
    exact if_neg hpeer
  · intro hpeer entries r hr
    have hiff (sent : HeaderMap) :
        extractClientIp N env (forwarded sent entries) peer = N.display r ↔
          Undisturbed N (trustedProxies N env) sent r := by
      obtain ⟨line, hline, hundisturbed⟩ := forwarded_head hr sent
      unfold extractClientIp
      rw [if_pos hpeer, connectingIp_forwarded, hline]
      cases hcf : connectingIp N sent with
      | some ip =>
        rw [Undisturbed, hcf]
        exact display_inj
      | none => exact (lineAnswer_iff hpeer hr.1 line).trans (hundisturbed hcf)
    intro sent
    refine ⟨hiff sent, fun sent' h h' => ?_⟩
    rw [(hiff sent).mpr h, (hiff sent').mpr h']

section Example

def isOctet (s : List Char) : Bool :=
  0 < s.length && s.length ≤ 3 && s.all Char.isDigit && (s.length = 1 || s.head? ≠ some '0') &&
    s.foldl (fun n c => 10 * n + (c.toNat - '0'.toNat)) 0 < 256

def isIpv4 (s : List Char) : Bool :=
  (s.splitOn '.').length = 4 && (s.splitOn '.').all isOctet

/-- The addresses of version 4, which have one way to write each. -/
def ipv4 : IpNotation { s : List Char // isIpv4 s = true } where
  parse s := if h : isIpv4 s = true then some ⟨s, h⟩ else none
  display := Subtype.val
  parse_display a := dif_pos a.2

def proxy : { s : List Char // isIpv4 s = true } := ⟨"10.0.0.1".toList, by decide⟩

def stranger : { s : List Char // isIpv4 s = true } := ⟨"203.0.113.9".toList, by decide⟩

def seen : ProxyEntry ipv4 where
  addr := stranger
  text := " 203.0.113.9".toList
  reads := by decide
  visible := by decide
  single := by decide

theorem rightmost_seen : Rightmost [proxy] [seen] stranger :=
  ⟨by decide, [], seen, [], rfl, rfl, nofun⟩

/-- A proxy in between hands the header on as the client has made it up. -/
theorem spoofed_address : ¬ ∀ env peer (entries : List (ProxyEntry ipv4)) r (sent : HeaderMap),
    peer ∈ trustedProxies ipv4 env → Rightmost (trustedProxies ipv4 env) entries r →
      extractClientIp ipv4 env (forwarded sent entries) peer = ipv4.display r := by
  intro hall
  have h := hall (some "10.0.0.1".toList) proxy [seen] stranger
    (fun name => if name = "cf-connecting-ip" then ["198.51.100.7".toList] else [])
    (by decide) rightmost_seen
  revert h
  decide

/-- The client sends an entry of its own in front. -/
theorem entry_in_front :
    extractClientIp ipv4 (some "10.0.0.1".toList)
      (forwarded (fun name => if name = "x-forwarded-for" then ["198.51.100.7".toList] else [])
        [seen]) proxy = "203.0.113.9".toList :=
  (((extractClientIp_iff ipv4 (some "10.0.0.1".toList) proxy).2 (by decide) [seen] stranger
    rightmost_seen _).1).mpr (show "198.51.100.7".toList.all isVisibleAscii = true by decide)

end Example

end FleetOrchestrator.Accounts
