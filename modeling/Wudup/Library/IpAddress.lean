import Mathlib.Tactic.IntervalCases
import Wudup.Library.Traverse
import Wudup.Library.Unicode

/-! Internet addresses and the texts that denote them. -/
namespace Library

inductive IpAddress where
  | v4 (ip : BitVec 32)
  | v6 (ip : BitVec 128) (scopeId : Option (List Char))
  deriving DecidableEq, Repr

def asciiNumber (text : List Char) : ℕ := text.foldl (fun n c => 10*n + (c.toNat - '0'.toNat)) 0

/-- A decimal number up to 255 without leading zeros. -/
def parseOctet (text : List Char) : Option (BitVec 8) :=
  if text = [] || !text.all Char.isDigit then none
  else if text.length > 3 then none
  else if text ≠ ['0'] && text.head? = some '0' then none
  else if asciiNumber text > 255 then none
  else some (BitVec.ofNat 8 (asciiNumber text))

def joinOctets (octets : List (BitVec 8)) : BitVec 32 :=
  octets.foldl (fun ip octet => (ip <<< 8) ||| octet.setWidth 32) 0

def parseIPv4 (text : List Char) : Option (BitVec 32) :=
  let octets := text.splitOn '.'
  if octets.length ≠ 4 then none else (octets.mapM parseOctet).map joinOctets

def hexDigits : List Char := "0123456789ABCDEFabcdef".toList

def hexValue (c : Char) : ℕ :=
  if c.isDigit then c.toNat - '0'.toNat else if c < 'a' then c.toNat - 55 else c.toNat - 87

def parseHextet (text : List Char) : Option (BitVec 16) :=
  if text = [] || !text.all hexDigits.contains || text.length > 4 then none
  else some (BitVec.ofNat 16 (text.foldl (fun n c => 16*n + hexValue c) 0))

def joinHextets (ip : BitVec 128) (hextets : List (BitVec 16)) : BitVec 128 :=
  hextets.foldl (fun ip hextet => (ip <<< 16) ||| hextet.setWidth 128) ip

def hexText (n : ℕ) : List Char := Nat.toDigits 16 n

/-- A dotted last part stands for two hextets. -/
def embedIPv4 (parts : List (List Char)) : Option (List (List Char)) :=
  let last := parts.getLast?.getD []
  if last.contains '.' then
    (parseIPv4 last).map fun ip => parts.dropLast ++ [hexText (ip.toNat / 65536),hexText (ip.toNat % 65536)]
  else some parts

/-- Where `::` stands, the ends apart. -/
def skipIndices (parts : List (List Char)) : List ℕ :=
  (List.range (parts.length - 1)).filter fun i => 1 ≤ i && parts[i]? = some []

/-- An empty part at the start or at the end is only allowed next to `::`. -/
def dropOuter (outer : Option (List Char)) (parts : List (List Char)) : Option (List (List Char)) :=
  if outer = some [] then if parts.length = 1 then some [] else none else some parts

/-- The parts before and after `::`, and the number of hextets it skips. -/
def hextetParts (parts : List (List Char)) : Option (List (List Char) × List (List Char) × ℕ) :=
  match skipIndices parts with
  | [] =>
    if parts.length ≠ 8 || parts.head? = some [] || parts.getLast? = some [] then none
    else some (parts,[],0)
  | [i] => do
    let hi ← dropOuter parts.head? (parts.take i)
    let lo ← dropOuter parts.getLast? (parts.drop (i + 1))
    if hi.length + lo.length > 7 then none else return (hi,lo,8 - (hi.length + lo.length))
  | _ => none

def parseIPv6Value (text : List Char) : Option (BitVec 128) :=
  if (text.splitOn ':').length < 3 then none
  else do
    let parts ← embedIPv4 (text.splitOn ':')
    if parts.length > 9 then none
    else
      let (hi,lo,skipped) ← hextetParts parts
      let hi ← hi.mapM parseHextet
      let lo ← lo.mapM parseHextet
      return joinHextets (joinHextets 0 hi <<< (16*skipped)) lo

def splitScopeId (text : List Char) : Option (List Char × Option (List Char)) :=
  match cut '%' text with
  | none => some (text,none)
  | some (addr,scopeId) => if scopeId = [] || scopeId.contains '%' then none else some (addr,some scopeId)

def parseIPv6 (text : List Char) : Option IpAddress :=
  if text.contains '/' then none
  else do
    let (addr,scopeId) ← splitScopeId text
    let ip ← parseIPv6Value addr
    return .v6 ip scopeId

/-- The address a text denotes, if it denotes one. -/
def ipAddress (text : List Char) : Option IpAddress :=
  match parseIPv4 text with
  | some ip => some (.v4 ip)
  | none => parseIPv6 text

/-! Networks -/

/-- The addresses that share the first bits of one. -/
inductive IpNetwork where
  | v4 (ip : BitVec 32) (length : ℕ)
  | v6 (ip : BitVec 128) (length : ℕ)
  deriving DecidableEq, Repr

def IpNetwork.contains : IpNetwork → IpAddress → Bool
  | v4 ip length, .v4 address => address >>> (32 - length) = ip >>> (32 - length)
  | v6 ip length, .v6 address _ => address >>> (128 - length) = ip >>> (128 - length)
  | _, _ => false

def multicastNetworks : List IpNetwork := [.v4 (joinOctets [224,0,0,0]) 4,.v6 (0xff <<< 120) 8]

def IpAddress.isMulticast (address : IpAddress) : Bool := multicastNetworks.any fun network => network.contains address

/-- The address of version 4 that one of version 6 stands for. -/
def IpAddress.ipv4Mapped : IpAddress → Option IpAddress
  | .v4 _ => none
  | .v6 ip _ => if ip >>> 32 = 0xffff then some (.v4 (ip.setWidth 32)) else none

/-! Which characters an address is written in -/

theorem mem_splitOn {sep c : Char} {text : List Char} (h : c ∈ text) :
    c = sep ∨ ∃ part ∈ text.splitOn sep, c ∈ part := by
  induction text with
  | nil => cases h
  | cons d rest ih =>
    rw [List.splitOn_cons_eq_if_modifyHead]
    obtain ⟨first,others,hrest⟩ := List.exists_cons_of_ne_nil (List.splitOn_ne_nil sep rest)
    rw [hrest] at ih ⊢
    by_cases hd : d = sep
    · rw [if_pos (by simp [hd])]
      rcases List.mem_cons.mp h with rfl | h
      · exact Or.inl hd
      · exact (ih h).imp_right fun ⟨part,hp,hc⟩ => ⟨part,List.mem_cons_of_mem _ hp,hc⟩
    · rw [if_neg (by simpa using hd),List.modifyHead_cons]
      rcases List.mem_cons.mp h with rfl | h
      · exact Or.inr ⟨c :: first,by simp,by simp⟩
      · rcases ih h with hc | ⟨part,hp,hc⟩
        · exact Or.inl hc
        · rcases List.mem_cons.mp hp with rfl | hp
          · exact Or.inr ⟨d :: part,by simp,by simp [hc]⟩
          · exact Or.inr ⟨part,by simp [hp],hc⟩

/-- What an address without a zone is written in. -/
def addressChars : List Char := ['.',':'] ++ hexDigits

theorem digit_addressChar {c : Char} (h : c.isDigit = true) : c ∈ addressChars := by
  obtain ⟨hlow,hhigh⟩ := ascii_range h
  have hc : c = Char.ofNat c.toNat := (Char.ofNat_toNat c).symm
  rw [hc]
  generalize c.toNat = n at hlow hhigh
  interval_cases n <;> decide

theorem parseOctet_chars {text : List Char} {octet : BitVec 8} (h : parseOctet text = some octet) :
    ∀ c ∈ text, c.isDigit = true := by
  unfold parseOctet at h
  split at h
  · cases h
  · rename_i hdigits
    simp only [Bool.or_eq_true,not_or,Bool.not_eq_true',Bool.not_eq_false,List.all_eq_true] at hdigits
    exact hdigits.2

theorem parseIPv4_digits {text : List Char} {ip : BitVec 32} (h : parseIPv4 text = some ip) :
    ∀ c ∈ text, c.isDigit = true ∨ c = '.' := by
  intro c hc
  unfold parseIPv4 at h
  dsimp only at h
  split at h
  · cases h
  · obtain ⟨octets,hoctets,-⟩ := Option.map_eq_some_iff.mp h
    rcases mem_splitOn hc with hdot | ⟨part,hp,hc⟩
    · exact Or.inr hdot
    · have hsome : parseOctet part ∈ octets.map some := by
        rw [← mapM_eq_some.mp hoctets]
        exact List.mem_map_of_mem hp
      obtain ⟨octet,-,ho⟩ := List.mem_map.mp hsome
      exact Or.inl (parseOctet_chars ho.symm c hc)

theorem parseIPv4_chars {text : List Char} {ip : BitVec 32} (h : parseIPv4 text = some ip) :
    ∀ c ∈ text, c ∈ addressChars := by
  intro c hc
  rcases parseIPv4_digits h c hc with hdigit | rfl
  · exact digit_addressChar hdigit
  · decide

theorem not_mem_of_parseIPv4 {text : List Char} {ip : BitVec 32} (h : parseIPv4 text = some ip) {c : Char}
    (hd : c.isDigit = false) (hdot : c ≠ '.') : c ∉ text := by
  intro hc
  rcases parseIPv4_digits h c hc with hdigit | hc
  · simp [hd] at hdigit
  · exact hdot hc

theorem parseHextet_chars {text : List Char} {hextet : BitVec 16} (h : parseHextet text = some hextet) :
    ∀ c ∈ text, c ∈ addressChars := by
  unfold parseHextet at h
  split at h
  · cases h
  · rename_i hhex
    simp only [Bool.or_eq_true,not_or,Bool.not_eq_true',Bool.not_eq_false,List.all_eq_true,
      List.contains_iff_mem] at hhex
    exact fun c hc => List.mem_append_right _ (hhex.1.2 c hc)

theorem embedIPv4_chars {parts parts' : List (List Char)} (h : embedIPv4 parts = some parts') :
    ∀ part ∈ parts, part ∈ parts' ∨ ∀ c ∈ part, c ∈ addressChars := by
  intro part hp
  unfold embedIPv4 at h
  dsimp only at h
  split at h
  · obtain ⟨ip,hip,rfl⟩ := Option.map_eq_some_iff.mp h
    have hparts := List.dropLast_append_getLast? (parts.getLast?.getD []) (l := parts) (by
      cases hl : parts.getLast? with
      | none => simp [List.getLast?_eq_none_iff.mp hl] at hp
      | some last => rfl)
    rw [← hparts,List.mem_append,List.mem_singleton] at hp
    rcases hp with hp | rfl
    · exact Or.inl (List.mem_append_left _ hp)
    · right
      exact parseIPv4_chars hip
  · obtain rfl := Option.some.inj h
    exact Or.inl hp

theorem dropOuter_mem {outer : Option (List Char)} {parts parts' : List (List Char)}
    (h : dropOuter outer parts = some parts') (he : ∀ part, outer = some part → parts.length = 1 → part ∈ parts) :
    ∀ part ∈ parts, part ∈ parts' ∨ part = [] := by
  intro part hp
  unfold dropOuter at h
  split at h
  · rename_i houter
    split at h
    · rename_i hlength
      obtain ⟨only,rfl⟩ := List.length_eq_one_iff.mp hlength
      have honly := he [] houter hlength
      rw [List.mem_singleton] at hp honly
      exact Or.inr (hp.trans honly.symm)
    · cases h
  · obtain rfl := Option.some.inj h
    exact Or.inl hp

theorem hextetParts_mem {parts hi lo : List (List Char)} {skipped : ℕ}
    (h : hextetParts parts = some (hi,lo,skipped)) :
    ∀ part ∈ parts, part ∈ hi ∨ part ∈ lo ∨ part = [] := by
  intro part hp
  unfold hextetParts at h
  split at h
  · split at h
    · cases h
    · cases h
      exact Or.inl hp
  · rename_i i hskip
    have hmem : i ∈ skipIndices parts := by simp [hskip]
    simp only [skipIndices,List.mem_filter,List.mem_range,Bool.and_eq_true,decide_eq_true_eq] at hmem
    obtain ⟨hbound,hfirst,hempty⟩ := hmem
    obtain ⟨hi',hhi,h⟩ := Option.bind_eq_some_iff.mp h
    obtain ⟨lo',hlo,h⟩ := Option.bind_eq_some_iff.mp h
    split at h
    · cases h
    · cases h
      have hparts : parts = parts.take i ++ [] :: parts.drop (i + 1) := by
        have hget := List.getElem?_eq_some_iff.mp hempty
        obtain ⟨hlt,hget⟩ := hget
        rw [← hget,← List.drop_eq_getElem_cons hlt,List.take_append_drop]
      rw [hparts,List.mem_append,List.mem_cons] at hp
      rcases hp with hp | rfl | hp
      · have hends := dropOuter_mem hhi (fun part ho _ => by
          rw [List.head?_eq_some_iff] at ho
          obtain ⟨rest,hrest⟩ := ho
          obtain ⟨n,rfl⟩ : ∃ n, i = n + 1 := ⟨i - 1,by omega⟩
          simp [hrest])
        exact (hends part hp).imp_right Or.inr
      · exact Or.inr (Or.inr rfl)
      · have hends := dropOuter_mem hlo (fun part ho _ => by
          have hne : parts.drop (i + 1) ≠ [] := List.ne_nil_of_length_pos (by
            rw [List.length_drop]
            omega)
          have hlast : parts.getLast? = (parts.drop (i + 1)).getLast? := by
            rw [List.getLast?_drop]
            simp
            omega
          rw [hlast] at ho
          exact List.mem_of_getLast? ho)
        exact Or.inr (hends part hp)
  · cases h

theorem mapM_hextet_chars {parts : List (List Char)} {hextets : List (BitVec 16)}
    (h : parts.mapM parseHextet = some hextets) {part : List Char} (hp : part ∈ parts) :
    ∀ c ∈ part, c ∈ addressChars := by
  have hsome : parseHextet part ∈ hextets.map some := by
    rw [← mapM_eq_some.mp h]
    exact List.mem_map_of_mem hp
  obtain ⟨hextet,-,hh⟩ := List.mem_map.mp hsome
  exact parseHextet_chars hh.symm

theorem parseIPv6Value_chars {text : List Char} {ip : BitVec 128} (h : parseIPv6Value text = some ip) :
    ∀ c ∈ text, c ∈ addressChars := by
  intro c hc
  unfold parseIPv6Value at h
  split at h
  · cases h
  · obtain ⟨parts,hparts,h⟩ := Option.bind_eq_some_iff.mp h
    split at h
    · cases h
    · obtain ⟨⟨hi,lo,skipped⟩,hhextets,h⟩ := Option.bind_eq_some_iff.mp h
      obtain ⟨his,hhi,h⟩ := Option.bind_eq_some_iff.mp h
      obtain ⟨los,hlo,-⟩ := Option.bind_eq_some_iff.mp h
      rcases (mem_splitOn hc : c = ':' ∨ _) with rfl | ⟨part,hp,hc⟩
      · decide
      · rcases embedIPv4_chars hparts part hp with hp | hchars
        · rcases hextetParts_mem hhextets part hp with hp | hp | rfl
          · exact mapM_hextet_chars hhi hp c hc
          · exact mapM_hextet_chars hlo hp c hc
          · cases hc
        · exact hchars c hc

/-- An address without a zone has only digits, dots and colons. -/
theorem ipAddress_chars {text : List Char} {ip : IpAddress} (h : ipAddress text = some ip)
    (hz : '%' ∉ text) : ∀ c ∈ text, c ∈ addressChars := by
  intro c hc
  unfold ipAddress at h
  split at h
  · rename_i v4 hv4
    exact parseIPv4_chars hv4 c hc
  · unfold parseIPv6 at h
    split at h
    · cases h
    · obtain ⟨⟨addr,scopeId⟩,hscope,h⟩ := Option.bind_eq_some_iff.mp h
      obtain ⟨v6,hv6,-⟩ := Option.bind_eq_some_iff.mp h
      rw [splitScopeId,cut_eq_none.mpr hz] at hscope
      cases hscope
      exact parseIPv6Value_chars hv6 c hc

/-- A dotted address followed by a colon and a colon-free text is no address. -/
theorem ipAddress_port {text port : List Char} {ip : BitVec 32} (h : parseIPv4 text = some ip)
    (hport : ':' ∉ port) (hz : '%' ∉ port) : ipAddress (text ++ ':' :: port) = none := by
  have hcolon : ':' ∉ text := not_mem_of_parseIPv4 h (by decide) (by decide)
  have hpercent : '%' ∉ text := not_mem_of_parseIPv4 h (by decide) (by decide)
  have hv4 : parseIPv4 (text ++ ':' :: port) = none := by
    cases hv4 : parseIPv4 (text ++ ':' :: port) with
    | none => rfl
    | some ip' => exact absurd (by simp) (not_mem_of_parseIPv4 hv4 (c := ':') (by decide) (by decide))
  have hsplit : (text ++ ':' :: port).splitOn ':' = [text,port] := by
    rw [List.splitOn_append_cons_self_of_not_mem hcolon,List.splitOn_eq_singleton hport]
  have hv6 : parseIPv6Value (text ++ ':' :: port) = none := by
    unfold parseIPv6Value
    simp [hsplit]
  have hscope : splitScopeId (text ++ ':' :: port) = some (text ++ ':' :: port,none) := by
    rw [splitScopeId,cut_eq_none.mpr (by simp [hpercent,hz])]
  unfold ipAddress
  rw [hv4]
  unfold parseIPv6
  simp [hscope,hv6]

end Library
