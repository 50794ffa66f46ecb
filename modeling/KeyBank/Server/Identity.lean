import KeyBank.Server.Middleware

/-!
# Who a request is charged to

Behind a trusted proxy `remoteIP` takes the leftmost entry of the first `X-Forwarded-For` line.
That is the client's address if the proxy replaces the header, as the shipped one does, or adds to
a request that came without it. A proxy that appends leaves the client's own entries in front, and
then the client's first entry decides (`remoteIP_proxied`). Without a trusted proxy no header
matters (`remoteIP_of_direct`).
-/

namespace KeyBank

open Interleaving

/-! ### The text of an address -/

/-- A byte that `net.ParseIP` accepts somewhere in an address: a hexadecimal digit, a dot or a
colon. -/
def isAddressByte (b : UInt8) : Bool := (UrlText.hexValue b).isSome || b = 46 || b = 58

private theorem mem_of_splitOn (sep : UInt8) {b : UInt8} {s : GoString} (hb : b ∈ s) :
    b = sep ∨ ∃ f ∈ s.splitOn sep, b ∈ f := by
  have hs : s = [sep].intercalate (s.splitOn sep) := (List.intercalate_splitOn sep).symm
  rw [hs] at hb
  generalize s.splitOn sep = fields at hb
  induction fields with
  | nil => exact absurd hb List.not_mem_nil
  | cons f fields ih =>
    rcases fields with _ | ⟨g, fields⟩
    · exact .inr ⟨f, List.mem_cons_self, by simpa using hb⟩
    · rw [List.intercalate_cons_cons, List.mem_append, List.mem_append,
        List.mem_singleton] at hb
      rcases hb with (hb | hb) | hb
      · exact .inr ⟨f, List.mem_cons_self, hb⟩
      · exact .inl hb
      · refine (ih hb).imp_right ?_
        rintro ⟨f', hf', hb'⟩
        exact ⟨f', List.mem_cons_of_mem _ hf', hb'⟩

private theorem forall_mem_of_mapM {α β : Type} {f : α → Option β} {l : List α} {l' : List β}
    (h : l.mapM f = some l') : ∀ a ∈ l, (f a).isSome = true := by
  induction l generalizing l' with
  | nil => exact nofun
  | cons a l ih =>
    rw [List.mapM_cons, Option.bind_eq_bind, Option.bind_eq_some_iff] at h
    obtain ⟨b, hb, h⟩ := h
    rw [Option.bind_eq_bind, Option.bind_eq_some_iff] at h
    obtain ⟨bs, hbs, -⟩ := h
    exact List.forall_mem_cons.mpr ⟨by rw [hb]; rfl, ih hbs⟩

private theorem isAddressByte_of_isDecDigit {b : UInt8} (h : isDecDigit b = true) :
    isAddressByte b = true := by
  rw [isDecDigit, Bool.and_eq_true, decide_eq_true_eq, decide_eq_true_eq] at h
  rw [isAddressByte, UrlText.hexValue, if_pos h]
  rfl

private theorem forall_of_parseOctet {f : GoString} (h : (parseOctet f).isSome = true) :
    ∀ b ∈ f, isAddressByte b = true := by
  rw [parseOctet] at h
  split at h
  · next hf =>
    intro b hb
    exact isAddressByte_of_isDecDigit (List.all_eq_true.mp hf.2.1 b hb)
  · exact absurd h nofun

private theorem forall_of_parseIPv4 {s : GoString} {ip : List ℕ} (h : parseIPv4 s = some ip) :
    ∀ b ∈ s, isAddressByte b = true := by
  rw [parseIPv4] at h
  split at h
  · next hmap =>
    intro b hb
    rcases mem_of_splitOn 46 hb with rfl | ⟨f, hf, hb⟩
    · rfl
    · exact forall_of_parseOctet (forall_mem_of_mapM hmap f hf) b hb
  · exact absurd h nofun

private theorem forall_of_parseGroup {f : GoString} {n : ℕ} (h : parseGroup f = some n) :
    ∀ b ∈ f, isAddressByte b = true := by
  rw [parseGroup] at h
  split at h
  · obtain ⟨ds, hds, -⟩ := Option.map_eq_some_iff.mp h
    intro b hb
    rw [isAddressByte, forall_mem_of_mapM hds b hb]
    rfl
  · exact absurd h nofun

private theorem forall_of_parseGroups {fs : List GoString} {ip : List ℕ}
    (h : parseGroups fs = some ip) : ∀ f ∈ fs, ∀ b ∈ f, isAddressByte b = true := by
  induction fs generalizing ip with
  | nil => exact nofun
  | cons f fs ih =>
    rcases fs with _ | ⟨g, fs⟩
    · rw [parseGroups] at h
      split at h
      · exact List.forall_mem_singleton.mpr (forall_of_parseIPv4 h)
      · obtain ⟨n, hn, -⟩ := Option.map_eq_some_iff.mp h
        exact List.forall_mem_singleton.mpr (forall_of_parseGroup hn)
    · rw [parseGroups] at h
      · split at h
        · next hgroup hrest =>
          exact List.forall_mem_cons.mpr ⟨forall_of_parseGroup hgroup, ih hrest⟩
        · exact absurd h nofun
      · exact nofun

private theorem forall_of_parseSide {s : GoString} {ip : List ℕ} (h : parseSide s = some ip) :
    ∀ b ∈ s, isAddressByte b = true := by
  rw [parseSide] at h
  split at h
  · next hs =>
    rw [hs]
    exact nofun
  · intro b hb
    rcases mem_of_splitOn 58 hb with rfl | ⟨f, hf, hb⟩
    · rfl
    · exact forall_of_parseGroups h f hf b hb

private theorem eq_of_splitEllipsis {s left right : GoString}
    (h : splitEllipsis s = some (left, right)) : s = left ++ 58 :: 58 :: right := by
  induction s using splitEllipsis.induct generalizing left right with
  | case1 s =>
    rw [splitEllipsis, Option.some.injEq, Prod.mk.injEq] at h
    rw [← h.1, ← h.2]
    rfl
  | case2 => exact absurd h nofun
  | case3 b s hne ih =>
    rw [splitEllipsis] at h
    · obtain ⟨⟨l, r⟩, hlr, heq⟩ := Option.map_eq_some_iff.mp h
      obtain ⟨rfl, rfl⟩ := Prod.mk.inj heq
      rw [ih hlr]
      rfl
    · exact hne

private theorem forall_of_parseIPv6 {s : GoString} {ip : List ℕ} (h : parseIPv6 s = some ip) :
    ∀ b ∈ s, isAddressByte b = true := by
  rw [parseIPv6] at h
  split at h
  · exact forall_of_parseSide (Option.filter_eq_some_iff.mp h).1
  · next left right hsplit =>
    split at h
    · next hleft hright =>
      rw [eq_of_splitEllipsis hsplit]
      intro b hb
      rw [List.mem_append, List.mem_cons, List.mem_cons] at hb
      rcases hb with hb | rfl | rfl | hb
      · exact forall_of_parseSide hleft b hb
      · rfl
      · rfl
      · exact forall_of_parseSide hright b hb
    · exact absurd h nofun

/-- The text of an address. -/
theorem forall_of_parseIP {s : GoString} {ip : List ℕ} (h : parseIP s = some ip) :
    s ≠ [] ∧ ∀ b ∈ s, isAddressByte b = true := by
  refine ⟨?_, ?_⟩
  · rintro rfl
    exact absurd h nofun
  · rw [parseIP] at h
    split at h
    · obtain ⟨b, hb, -⟩ := Option.map_eq_some_iff.mp h
      exact forall_of_parseIPv4 hb
    · split at h
      · exact absurd h nofun
      · exact forall_of_parseIPv6 h
    · exact absurd h nofun

private theorem dropWords_of_head {words : List GoString} {fuel : ℕ} {s : GoString}
    (h : ∀ w ∈ words, w.isPrefixOf s = false) : dropWords words fuel s = s := by
  rcases fuel with _ | fuel
  · rfl
  · have hfind : (words.find? fun w => w.isPrefixOf s) = none := by
      rw [List.find?_eq_none]
      intro w hw
      rw [h w hw]
      exact Bool.false_ne_true
    rw [dropWords, hfind]

/-- No white space begins or ends with a byte of an address. -/
private theorem isPrefixOf_of_address {s : GoString} (hne : s ≠ [])
    (hs : ∀ b ∈ s, isAddressByte b = true) :
    (∀ w ∈ spaces, w.isPrefixOf s = false) ∧
      ∀ w ∈ spaces.map List.reverse, w.isPrefixOf s = false := by
  have hall : (spaces ++ spaces.map List.reverse).all (fun w =>
      w.head?.all fun b => !isAddressByte b) = true ∧
        (spaces ++ spaces.map List.reverse).all (fun w => w != []) = true := by decide +kernel
  obtain ⟨b, s, rfl⟩ := List.exists_cons_of_ne_nil hne
  have hword : ∀ w ∈ spaces ++ spaces.map List.reverse, w.isPrefixOf (b :: s) = false := by
    intro w hw
    have hhead := List.all_eq_true.mp hall.1 w hw
    have hnil := List.all_eq_true.mp hall.2 w hw
    rcases w with _ | ⟨a, w⟩
    · exact absurd hnil (by decide)
    · rw [List.isPrefixOf_cons_cons]
      have hab : a ≠ b := by
        rintro rfl
        rw [List.head?_cons, Option.all_some, hs a List.mem_cons_self] at hhead
        exact absurd hhead (by decide)
      rw [beq_false_of_ne hab, Bool.false_and]
  exact ⟨fun w hw => hword w (List.mem_append_left _ hw),
    fun w hw => hword w (List.mem_append_right _ hw)⟩

/-- The leftmost entry of a list, without white space around it. -/
def firstEntry (value : GoString) : GoString := trimSpace ((value.splitOn 44).headD [])

/-- An address is its own first entry. -/
theorem firstEntry_of_parseIP {s : GoString} {ip : List ℕ} (h : parseIP s = some ip) :
    firstEntry s = s := by
  obtain ⟨hne, hs⟩ := forall_of_parseIP h
  have hcomma : (44 : UInt8) ∉ s := fun hmem => absurd (hs 44 hmem) (by decide)
  have hreverse := isPrefixOf_of_address (s := s.reverse) (by simpa using hne)
    (fun b hb => hs b (List.mem_reverse.mp hb))
  rw [firstEntry, List.splitOn_eq_singleton hcomma, List.headD_cons, trimSpace,
    dropWords_of_head (isPrefixOf_of_address hne hs).1]
  simp only [dropWords_of_head hreverse.2, List.reverse_reverse]

/-- What follows a comma does not matter. -/
theorem firstEntry_append (value rest : GoString) :
    firstEntry (value ++ 44 :: rest) = firstEntry value := by
  obtain ⟨first, entries, hsplit⟩ := List.exists_cons_of_ne_nil (List.splitOn_ne_nil 44 value)
  rw [firstEntry, firstEntry, List.splitOn_append_cons_self, hsplit]
  rfl

/-! ### Proxies -/

/-- What a reverse proxy does with `X-Forwarded-For`: it replaces the header by the client's
address, joins the address to the values that came, or adds a line. -/
inductive ProxyRule where
  | replace
  | join
  | line
  deriving DecidableEq

/-- The values the proxy sends on. -/
def ProxyRule.values (rule : ProxyRule) (client : GoString) (lines : List GoString) :
    List GoString :=
  match rule with
  | replace => [client]
  | join => [(lit ", ").intercalate (lines ++ [client])]
  | line => lines ++ [client]

/-- The `X-Forwarded-For` lines of a header. -/
def forwardedLines (header : Header) : List GoString :=
  (header.filter fun f => f.1 = "X-Forwarded-For").map Prod.snd

/-- A client's request as a proxy at `remoteAddr` sends it on. -/
def Request.proxied (r : Request) (rule : ProxyRule) (client remoteAddr : GoString) : Request :=
  { r with
    remoteAddr
    header := (r.header.filter fun f => f.1 ≠ "X-Forwarded-For") ++
      (rule.values client (forwardedLines r.header)).map fun value => ("X-Forwarded-For", value) }

/-- The host of the direct peer. -/
def directIP (remoteAddr : GoString) : GoString := (splitHost remoteAddr).getD remoteAddr

/-! ### The address charged -/

/-- The limiter is asked about this address before anything else happens. -/
def ChargedTo (bucket : Bucket) (trustXFF : Bool) (r : Request) (ip : GoString) : Prop :=
  ∀ next w, ∃ k, rateLimit bucket trustXFF next w r = .call (.allow bucket ip) k

theorem chargedTo_iff {bucket : Bucket} {trustXFF : Bool} {r : Request} {ip : GoString} :
    ChargedTo bucket trustXFF r ip ↔ remoteIP r trustXFF = ip := by
  constructor
  · intro h
    obtain ⟨k, hk⟩ := h (fun w _ => finish w) .new
    rw [rateLimit, Prog.call.injEq] at hk
    exact (Cmd.allow.inj hk.1).2
  · rintro rfl next w
    exact ⟨_, rfl⟩

/-- **Without a trusted proxy** no header matters. -/
theorem remoteIP_of_direct {r : Request} {trustXFF : Bool}
    (h : trustXFF = false ∨ isTrustedProxy (directIP r.remoteAddr) = false) (header : Header) :
    remoteIP { r with header } trustXFF = directIP r.remoteAddr := by
  have hguard : (trustXFF && isTrustedProxy (directIP r.remoteAddr)) = false := by
    rw [Bool.and_eq_false_iff]
    exact h
  rw [directIP] at hguard
  simp only [remoteIP, hguard, Bool.false_and, Bool.false_eq_true, if_false, directIP]

/-- Behind one, the first entry decides, unless it is blank. -/
theorem remoteIP_of_trusted {r : Request} (h : isTrustedProxy (directIP r.remoteAddr) = true) :
    remoteIP r true = if firstEntry (r.header.get "X-Forwarded-For") = [] then
      directIP r.remoteAddr else firstEntry (r.header.get "X-Forwarded-For") := by
  have hempty : firstEntry [] = [] := by decide
  rw [directIP] at h
  simp only [remoteIP, h, Bool.true_and, directIP]
  generalize r.header.get "X-Forwarded-For" = value
  have hdef : trimSpace ((value.splitOn 44).headD []) = firstEntry value := rfl
  rw [hdef]
  by_cases hvalue : value = []
  · rw [hvalue, hempty]
    rfl
  · have hpresent : (value != []) = true := bne_iff_ne.mpr hvalue
    rw [hpresent, Bool.true_and]
    by_cases hfirst : firstEntry value = []
    · rw [if_pos hfirst, hfirst]
      rfl
    · rw [if_neg hfirst, if_pos (bne_iff_ne.mpr hfirst)]

private theorem get_proxied (r : Request) (rule : ProxyRule) (client remoteAddr : GoString) :
    (r.proxied rule client remoteAddr).header.get "X-Forwarded-For" =
      (rule.values client (forwardedLines r.header)).headD [] := by
  have hlookup (h : Header) (values : List GoString) :
      ((h.filter fun f => f.1 ≠ "X-Forwarded-For") ++
        values.map fun value => ("X-Forwarded-For", value)).lookup "X-Forwarded-For" =
          values.head? := by
    induction h with
    | nil => rcases values with _ | ⟨v, values⟩ <;> simp
    | cons f h ih =>
      obtain ⟨name, value⟩ := f
      by_cases hname : name = "X-Forwarded-For"
      · rw [List.filter_cons_of_neg (by simpa using hname), ih]
      · have hne : ("X-Forwarded-For" == name) = false := beq_false_of_ne (Ne.symm hname)
        rw [List.filter_cons_of_pos (by simpa using hname), List.cons_append, List.lookup_cons,
          hne, ih]
  rw [Header.get, Request.proxied, hlookup, List.headD_eq_head?_getD]

/-- The first entry a proxy sends on: the client's own, if the proxy appends to some. -/
theorem firstEntry_values (rule : ProxyRule) {client : GoString} {ip : List ℕ}
    (hclient : parseIP client = some ip) (lines : List GoString) :
    firstEntry ((rule.values client lines).headD []) =
      if rule = .replace then client else firstEntry (lines.headD client) := by
  have hself := firstEntry_of_parseIP hclient
  rcases rule with _ | _ | _
  · exact hself
  · rcases lines with _ | ⟨v, lines⟩
    · simp [ProxyRule.values]
    · obtain ⟨u, us, hus⟩ := List.exists_cons_of_ne_nil
        (List.append_ne_nil_of_right_ne_nil lines (List.cons_ne_nil client []))
      have hcomma : lit ", " = [44, 32] := by decide
      simp only [ProxyRule.values, List.cons_append, hus, List.intercalate_cons_cons, hcomma,
        List.headD_cons, reduceCtorEq, if_false, List.append_assoc, List.nil_append]
      exact firstEntry_append v _
  · rcases lines with _ | ⟨v, lines⟩ <;> simp [ProxyRule.values]

/-- **Who is charged.** For a client at a public address behind a trusted proxy: the client, if
the proxy replaces the header or the client sends none; otherwise whoever the first entry of the
client's first line names, or the proxy if that entry is blank. And without a trusted proxy the
headers do not matter. -/
theorem remoteIP_proxied :
    (∀ (r : Request) (rule : ProxyRule) (client remoteAddr : GoString) (ip : List ℕ)
        (bucket : Bucket), parseIP client = some ip → isTrustedProxy client = false →
        isTrustedProxy (directIP remoteAddr) = true →
        ((rule = .replace ∨ forwardedLines r.header = [] →
            remoteIP (r.proxied rule client remoteAddr) true = client ∧
              ChargedTo bucket true (r.proxied rule client remoteAddr) client) ∧
          ∀ line lines, rule ≠ .replace → forwardedLines r.header = line :: lines →
            remoteIP (r.proxied rule client remoteAddr) true =
                (if firstEntry line = [] then directIP remoteAddr else firstEntry line) ∧
              (ChargedTo bucket true (r.proxied rule client remoteAddr) client ↔
                firstEntry line = client))) ∧
      ∀ (r : Request) (trustXFF : Bool) (header : Header),
        trustXFF = false ∨ isTrustedProxy (directIP r.remoteAddr) = false →
        remoteIP { r with header } trustXFF = remoteIP r trustXFF := by
  refine ⟨?_, ?_⟩
  · intro r rule client remoteAddr ip bucket hclient hpublic hproxy
    have hne := (forall_of_parseIP hclient).1
    have hself := firstEntry_of_parseIP hclient
    have hcharged : remoteIP (r.proxied rule client remoteAddr) true =
        if firstEntry ((rule.values client (forwardedLines r.header)).headD []) = [] then
          directIP remoteAddr
        else firstEntry ((rule.values client (forwardedLines r.header)).headD []) := by
      rw [← get_proxied]
      exact remoteIP_of_trusted (r := r.proxied rule client remoteAddr) hproxy
    rw [firstEntry_values rule hclient] at hcharged
    refine ⟨fun hrule => ?_, fun line lines hrule hlines => ?_⟩
    · have hentry : (if rule = .replace then client
          else firstEntry ((forwardedLines r.header).headD client)) = client := by
        rcases hrule with rfl | hnone
        · exact if_pos rfl
        · rw [hnone, List.headD_nil, hself, ite_self]
      rw [hentry, if_neg hne] at hcharged
      exact ⟨hcharged, chargedTo_iff.mpr hcharged⟩
    · rw [if_neg hrule, hlines, List.headD_cons] at hcharged
      refine ⟨hcharged, ?_⟩
      rw [chargedTo_iff, hcharged]
      split
      · next hblank =>
        -- The proxy is charged, which is not at a public address.
        rw [hblank]
        refine iff_of_false ?_ (Ne.symm hne)
        rintro rfl
        rw [hpublic] at hproxy
        exact absurd hproxy Bool.false_ne_true
      · exact Iff.rfl
  · intro r trustXFF header h
    rw [remoteIP_of_direct h header, ← remoteIP_of_direct h r.header]

/-- A request for a key that claims to come from 198.51.100.1. -/
def spoofing : Request where
  method := "GET"
  path := lit "/api/keys/00"
  requestURI := lit "/api/keys/00"
  remoteAddr := lit "203.0.113.9:4711"
  header := [("X-Forwarded-For", lit "198.51.100.1")]
  body := ⟨[], none⟩
  matched := []
  keyPair := none

/-- A proxy that replaces the header, and no proxy at all. -/
theorem remoteIP_proxied_replaced :
    remoteIP (spoofing.proxied .replace (lit "203.0.113.9") (lit "10.0.0.2:8080")) true =
        lit "203.0.113.9" ∧
      remoteIP { spoofing with header := [] } true = remoteIP spoofing true := by
  have hclient : parseIP (lit "203.0.113.9") =
      some [0, 0, 0, 0, 0, 0, 0, 0, 0, 0, 255, 255, 203, 0, 113, 9] := by decide +kernel
  refine ⟨?_, remoteIP_proxied.2 spoofing true [] (.inr (by decide +kernel))⟩
  exact ((remoteIP_proxied.1 spoofing .replace _ (lit "10.0.0.2:8080") _ .fetch hclient
    (by decide +kernel) (by decide +kernel)).1 (.inl rfl)).1

/-- A proxy that appends: the client is charged as whoever it claims to be. -/
theorem remoteIP_proxied_spoofed :
    (parseIP (lit "203.0.113.9")).isSome = true ∧ isTrustedProxy (lit "203.0.113.9") = false ∧
      isTrustedProxy (directIP (lit "10.0.0.2:8080")) = true ∧
      remoteIP (spoofing.proxied .join (lit "203.0.113.9") (lit "10.0.0.2:8080")) true =
        lit "198.51.100.1" ∧
      remoteIP (spoofing.proxied .line (lit "203.0.113.9") (lit "10.0.0.2:8080")) true =
        lit "198.51.100.1" := by decide +kernel

end KeyBank
