import XmlHarvest.Proofs.Cleaning
import XmlHarvest.Proofs.Session
import XmlHarvest.Proofs.Xml.Declaration

/-! # The encoding that a text declares

A text consists of characters already, but a reader applies the encoding that its
declaration names to its bytes once more.  So the tree depends on that name through the
characters that the bytes are in the encoding; they are those of the text when the
text is in ASCII or declares the encoding in which its bytes are made, and others where
the encoding has one character for each byte. -/
set_option autoImplicit false

namespace XmlHarvest

open Xml

namespace Text.Utf8

variable {cs : List Char}

theorem length_utf8_pos (c : Char) : 1 ≤ (String.utf8EncodeChar c).length := by
  rw [String.length_utf8EncodeChar]
  exact c.utf8Size_pos

theorem length_le_length_bytes : cs.length ≤ (encodeChars cs).length := by
  induction cs with
  | nil => simp
  | cons c cs ih =>
    have hc := length_utf8_pos c
    rw [encodeChars] at ih ⊢
    simp only [List.flatMap_cons, List.length_append, List.length_cons]
    omega

/-- Only ASCII has as many bytes as characters. -/
theorem ascii_of_length_bytes (h : (encodeChars cs).length = cs.length) :
    ∀ c ∈ cs, c.toNat < 0x80 := by
  induction cs with
  | nil => simp
  | cons c cs ih =>
    have hc := length_utf8_pos c
    have hcs : cs.length ≤ (encodeChars cs).length := length_le_length_bytes
    have hcons : encodeChars (c :: cs) = String.utf8EncodeChar c ++ encodeChars cs := rfl
    rw [hcons, List.length_append, List.length_cons] at h
    have hone : c.utf8Size = 1 := by
      rw [← String.length_utf8EncodeChar]
      omega
    have hsmall : c.toNat ≤ 0x7f := Char.utf8Size_eq_one_iff.mp hone
    have hrest := ih (by omega)
    intro d hd
    rcases List.mem_cons.mp hd with rfl | hd
    · omega
    · exact hrest d hd

end Text.Utf8

namespace Xml

/-- The characters that bytes are in an encoding, up to the first bytes that are none, and
whether that is all of them. -/
abbrev Codec : Type := List UInt8 → List Char × Bool

/-- A codec that leaves ASCII as it is. -/
def Codec.Compatible (codec : Codec) : Prop :=
  ∀ cs : List Char, (∀ c ∈ cs, c.toNat < 0x80) → codec (Text.Utf8.encodeChars cs) = (cs, true)

/-- A codec with one character for each byte. -/
def Codec.Narrow (codec : Codec) : Prop :=
  ∀ bytes, (codec bytes).2 = true → (codec bytes).1.length = bytes.length

/-- A reader that decodes what follows a declaration by the encoding that is named there:
the root is that of a tree of the decoded characters. -/
structure DecodesDeclared (reader : Reader) (codec? : List Char → Option Codec)
    (tree : Bool → List Char × Bool → Option Element) : Prop where
  isName : ∀ name codec, codec? name = some codec → Charset.IsName name
  compatible : ∀ name codec, codec? name = some codec → codec.Compatible
  reads : ∀ recover name codec cs root, codec? name = some codec →
    (reader recover (Text.Utf8.encodeChars (declarationOf name ++ cs)) = .root root ↔
      tree recover (codec (Text.Utf8.encodeChars cs)) = some root)

/-! ## The program's reader -/

namespace Charset

variable {charset : Charset} {cs : List Char}

def codec (charset : Charset) : Codec := fun bytes =>
  match charset with
  | utf8 =>
    match Text.Utf8.decode bytes with
    | .ok cs => (cs, true)
    | .error _ => ([], false)
  | _ => charset.decode (bytes.map UInt8.toNat)

theorem codec_encodeChars (charset : Charset) (cs : List Char) :
    charset.codec (Text.Utf8.encodeChars cs) = charset.reread cs := by
  have hbytes : (Text.Utf8.encodeChars cs).map UInt8.toNat =
      cs.flatMap fun c => (String.utf8EncodeChar c).map UInt8.toNat := List.map_flatMap
  cases charset with
  | utf8 => simp only [codec, Text.Utf8.decode_encodeChars, reread]
  | ascii | latin1 | latin9 | windows1252 => simp only [codec, hbytes, reread]

theorem length_decode {bytes : List Nat} (h : (charset.decode bytes).2 = true) :
    (charset.decode bytes).1.length = bytes.length := by
  induction bytes with
  | nil => rfl
  | cons b bytes ih =>
    cases hb : charset.ofByte? b with
    | none => simp [decode, hb] at h
    | some c =>
      have hrest : (charset.decode bytes).2 = true := by simpa [decode, hb] using h
      simp [decode, hb, ih hrest]

/-- All encodings but that of the bytes have one character for each byte. -/
theorem narrow_codec (h : charset ≠ .utf8) : charset.codec.Narrow := by
  intro bytes hwhole
  cases charset with
  | utf8 => exact absurd rfl h
  | ascii | latin1 | latin9 | windows1252 => exact (length_decode hwhole).trans (List.length_map _)

end Charset

def treeOfRest (recover : Bool) (decoded : List Char × Bool) : Option Element :=
  match readRest recover decoded.1 decoded.2 with
  | .root e => some e
  | _ => none

theorem readBytes_decodesDeclared :
    DecodesDeclared readBytes (fun name => (Charset.ofName? name).map Charset.codec)
      treeOfRest where
  isName name codec h := by
    obtain ⟨charset, hname, -⟩ := Option.map_eq_some_iff.mp h
    exact Charset.isName_of_ofName? hname
  compatible name codec h := by
    obtain ⟨charset, -, rfl⟩ := Option.map_eq_some_iff.mp h
    intro cs hascii
    rw [Charset.codec_encodeChars, Charset.reread_of_ascii charset hascii]
  reads recover name codec cs root h := by
    obtain ⟨charset, hname, rfl⟩ := Option.map_eq_some_iff.mp h
    rw [readBytes_encodeChars, read_declarationOf hname, Charset.codec_encodeChars, treeOfRest]
    cases readRest recover (charset.reread cs).1 (charset.reread cs).2 <;> simp

end Xml

namespace Document

def declaring (name : List Char) (rest : Text) : Text :=
  Text.ofChars (declarationOf name) ++ rest

/-- What the bytes of the text behind a declaration are in an encoding; none if it has no
bytes. -/
def decoded? (codec : Codec) (rest : Text) : Option (List Char × Bool) :=
  (Text.Utf8.encode (cleanRest rest)).toOption.map codec

variable {name cs : List Char} {rest : Text} {codec : Codec} {pair : List Char × Bool}

theorem decoded?_eq_some : decoded? codec rest = some pair ↔
    ∃ cs, cleanRest rest = Text.ofChars cs ∧ codec (Text.Utf8.encodeChars cs) = pair := by
  rw [decoded?, Option.map_eq_some_iff]
  constructor
  · rintro ⟨bytes, hbytes, rfl⟩
    cases hencode : Text.Utf8.encode (cleanRest rest) with
    | error surrogates =>
      rw [hencode] at hbytes
      cases hbytes
    | ok found =>
      rw [hencode] at hbytes
      cases hbytes
      obtain ⟨cs, hclean, rfl⟩ := Text.Utf8.encode_eq_ok.mp hencode
      exact ⟨cs, hclean, rfl⟩
  · rintro ⟨cs, hclean, rfl⟩
    exact ⟨_, by rw [hclean, Text.Utf8.encode_ofChars]; rfl, rfl⟩

theorem mem_declarationOf {c : Char} (h : c ∈ declarationOf cs) :
    c ∈ cs ∨ c ∈ "<?xml version=\"1.0\" encoding=?>".toList := by
  have hopening : "<?xml".toList ++ ' ' :: ("version=\"1.0\"".toList ++
      (' ' :: "encoding=\"".toList)) ⊆ "<?xml version=\"1.0\" encoding=?>".toList := by
    decide +kernel
  have hclosing : '"' :: "?>".toList ⊆ "<?xml version=\"1.0\" encoding=?>".toList := by
    decide +kernel
  have hmem : c ∈ ("<?xml".toList ++ ' ' :: ("version=\"1.0\"".toList ++
      (' ' :: "encoding=\"".toList))) ++ (cs ++ '"' :: "?>".toList) := by
    rw [declarationOf] at h
    simp only [List.append_assoc, List.cons_append]
    exact h
  rcases List.mem_append.mp hmem with hc | hc
  · exact .inr (hopening hc)
  · rcases List.mem_append.mp hc with hc | hc
    · exact .inl hc
    · exact .inr (hclosing hc)

theorem clean_declaring (h : Charset.IsName name) :
    clean (declaring name rest) = Text.ofChars (declarationOf name) ++ cleanRest rest := by
  have hline : CodePoint.char '\r' ∉ Text.ofChars (declarationOf name) := by
    rw [Text.ofChars, List.mem_map]
    rintro ⟨d, hmem, hd⟩
    cases hd
    rcases mem_declarationOf hmem with hname | hmark
    · obtain ⟨c, later, heq, hc, hlater⟩ := h
      rw [heq, List.mem_cons] at hname
      rcases hname with rfl | hname
      · cases hc
      · cases hlater _ hname
    · revert hmark
      decide +kernel
  have hlast : (Text.ofChars (declarationOf name)).getLast? = some (.char '>') := by
    simp [Text.ofChars, declarationOf, List.getLast?_append, List.getLast?_cons]
  exact clean_append rfl hlast hline

theorem isBlank_declaring : Document.isBlank (declaring name rest) = false := rfl

theorem ofChars_append {front : List Char} {text : Text} :
    Text.ofChars front ++ text = Text.ofChars cs ↔
      ∃ back, cs = front ++ back ∧ text = Text.ofChars back := by
  constructor
  · intro h
    obtain ⟨l, back, rfl, hl, hback⟩ := List.append_eq_map_iff.mp h
    have hinj : Function.Injective CodePoint.char := fun a b hab => CodePoint.char.inj hab
    cases List.map_injective_iff.mpr hinj hl
    exact ⟨back, rfl, hback.symm⟩
  · rintro ⟨back, rfl, rfl⟩
    exact List.map_append.symm

section Readers

variable {p : Parser} {codec? : List Char → Option Codec}
  {tree : Bool → List Char × Bool → Option Element}

/-- A text behind a declaration is read as the characters that its bytes are in the
declared encoding. -/
theorem reads_declaring (hp : DecodesDeclared p.reader codec? tree) {root : Element}
    (h : codec? name = some codec) :
    Reads p (some (declaring name rest)) root ↔
      (decoded? codec rest).bind (tree p.recover) = some root := by
  have hclean : clean (declaring name rest) = _ := clean_declaring (hp.isName name codec h)
  simp only [Parser.reads_iff, isBlank_declaring, true_and, hclean, ofChars_append,
    Option.bind_eq_some_iff, decoded?_eq_some]
  constructor
  · rintro ⟨cs, ⟨back, rfl, hback⟩, hroot⟩
    exact ⟨_, ⟨back, hback, rfl⟩, (hp.reads _ _ _ _ _ h).mp hroot⟩
  · rintro ⟨pair, ⟨back, hback, rfl⟩, hroot⟩
    exact ⟨_, ⟨back, rfl, hback⟩, (hp.reads _ _ _ _ _ h).mpr hroot⟩

end Readers

/-- A text of ASCII, or one that has no bytes. -/
def Neutral (text : Text) : Prop :=
  (∀ c ∈ text, c.toNat < 0x80) ∨ ∃ c ∈ text, c.isSurrogate = true

theorem isSurrogate_of_mem_ofChars {c : CodePoint} (h : c ∈ Text.ofChars cs) :
    c.isSurrogate = false := by
  obtain ⟨d, -, rfl⟩ := List.mem_map.mp h
  rfl

theorem exists_ofChars_of_ascii {text : Text} (h : ∀ c ∈ text, c.toNat < 0x80) :
    ∃ cs : List Char, text = Text.ofChars cs ∧ ∀ c ∈ cs, c.toNat < 0x80 := by
  obtain ⟨cs, rfl⟩ : ∃ cs, text = Text.ofChars cs := by
    apply Text.Utf8.exists_ofChars
    intro c hc
    cases c with
    | char c => rfl
    | surrogate n =>
      have hsmall : 0xD800 + n.val < 0x80 := h _ hc
      omega
  exact ⟨cs, rfl, fun c hc => h _ (List.mem_map_of_mem hc)⟩

theorem decoded?_of_surrogate (h : ∃ c ∈ cleanRest rest, c.isSurrogate = true) :
    decoded? codec rest = none := by
  obtain ⟨c, hmem, hc⟩ := h
  cases hdecoded : decoded? codec rest with
  | none => rfl
  | some pair =>
    obtain ⟨cs, hclean, -⟩ := decoded?_eq_some.mp hdecoded
    rw [hclean] at hmem
    rw [isSurrogate_of_mem_ofChars hmem] at hc
    cases hc

/-- Two encodings agree on what is neutral. -/
theorem decoded?_of_neutral {other : Codec} (hcodec : codec.Compatible)
    (hother : other.Compatible) (h : Neutral (cleanRest rest)) :
    decoded? codec rest = decoded? other rest := by
  rcases h with hascii | hsurrogate
  · obtain ⟨cs, hclean, hcs⟩ := exists_ofChars_of_ascii hascii
    rw [decoded?_eq_some.mpr ⟨cs, hclean, hcodec cs hcs⟩,
      decoded?_eq_some.mpr ⟨cs, hclean, hother cs hcs⟩]
  · rw [decoded?_of_surrogate hsurrogate, decoded?_of_surrogate hsurrogate]

/-- An encoding of one character for each byte agrees with that of the bytes on nothing
else. -/
theorem neutral_of_decoded? {other : Codec} (hcodec : codec.Narrow)
    (hother : ∀ cs, other (Text.Utf8.encodeChars cs) = (cs, true))
    (h : decoded? codec rest = decoded? other rest) : Neutral (cleanRest rest) := by
  by_cases hsurrogate : ∃ c ∈ cleanRest rest, c.isSurrogate = true
  · exact .inr hsurrogate
  · left
    obtain ⟨cs, hclean⟩ : ∃ cs, cleanRest rest = Text.ofChars cs :=
      Text.Utf8.exists_ofChars fun c hc =>
        Bool.eq_false_iff.mpr fun htrue => hsurrogate ⟨c, hc, htrue⟩
    rw [decoded?_eq_some.mpr ⟨cs, hclean, hother cs⟩] at h
    obtain ⟨cs', hclean', hcs⟩ := decoded?_eq_some.mp h
    have hsame : cs' = cs := (List.map_injective_iff.mpr fun a b hab => CodePoint.char.inj hab)
      (hclean'.symm.trans hclean)
    rw [hsame] at hcs
    have hlength := hcodec (Text.Utf8.encodeChars cs) (by rw [hcs])
    rw [hcs] at hlength
    have hascii := Text.Utf8.ascii_of_length_bytes hlength.symm
    intro c hc
    rw [hclean] at hc
    obtain ⟨d, hd, rfl⟩ := List.mem_map.mp hc
    exact hascii d hd

end Document

open Document

/-- What a parser makes of a text that declares an encoding depends on the name only
through the characters that the bytes of the text are in that encoding, whatever reads
for the parser.  Two names give the same root, or none, where those characters are the
same, so on every text in ASCII and on every text without bytes; an encoding with one
character for each byte gives other characters than that of the bytes for every other
text. -/
theorem declared_encoding_rereads {p : Parser} {codec? : List Char → Option Codec}
    {tree : Bool → List Char × Bool → Option Element} {n₁ n₂ : List Char} {c₁ c₂ : Codec}
    (hp : DecodesDeclared p.reader codec? tree) (h₁ : codec? n₁ = some c₁)
    (h₂ : codec? n₂ = some c₂) :
    (∀ d₁ d₂ id₁ id₂ root, decoded? c₁ d₁ = decoded? c₂ d₂ →
      ((p.parse (some (declaring n₁ d₁)) id₁).1 = .ok root ↔
        (p.parse (some (declaring n₂ d₂)) id₂).1 = .ok root)) ∧
    (∀ d, Neutral (cleanRest d) → decoded? c₁ d = decoded? c₂ d) ∧
    (c₁.Narrow → (∀ cs, c₂ (Text.Utf8.encodeChars cs) = (cs, true)) →
      ∀ d, decoded? c₁ d = decoded? c₂ d → Neutral (cleanRest d)) := by
  refine ⟨?_, ?_, ?_⟩
  · intro d₁ d₂ id₁ id₂ root hsame
    rw [Parser.parse_eq_ok, Parser.parse_eq_ok, reads_declaring hp h₁, reads_declaring hp h₂,
      hsame]
  · intro d hneutral
    exact decoded?_of_neutral (hp.compatible n₁ c₁ h₁) (hp.compatible n₂ c₂ h₂) hneutral
  · intro hnarrow hutf8 d hsame
    exact neutral_of_decoded? hnarrow hutf8 hsame

/-- Another name for the same encoding, in other letters, gives the same tree. -/
theorem declared_alias_reads :
    (Charset.ofName? "ISO-8859-1".toList).map Charset.codec = some Charset.latin1.codec ∧
    (Charset.ofName? "latin1".toList).map Charset.codec = some Charset.latin1.codec ∧
    ((Parser.parse { recover := false }
          (some (declaring "ISO-8859-1".toList "<a>é</a>")) none).1 =
        .ok ⟨"a", [.text "Ã©"]⟩ ↔
      (Parser.parse { recover := false } (some (declaring "latin1".toList "<a>é</a>")) none).1 =
        .ok ⟨"a", [.text "Ã©"]⟩) := by
  have hlong : Charset.ofName? "ISO-8859-1".toList = some .latin1 := by decide +kernel
  have hshort : Charset.ofName? "latin1".toList = some .latin1 := by decide +kernel
  have hcodec : (Charset.ofName? "ISO-8859-1".toList).map Charset.codec =
      some Charset.latin1.codec := by rw [hlong]; rfl
  have hcodec' : (Charset.ofName? "latin1".toList).map Charset.codec =
      some Charset.latin1.codec := by rw [hshort]; rfl
  have hrereads := declared_encoding_rereads (p := { recover := false })
    readBytes_decodesDeclared hcodec hcodec'
  exact ⟨hcodec, hcodec', hrereads.1 _ _ _ _ _ rfl⟩

/-- The declared encoding is applied to characters that have been decoded. -/
theorem decoded_text_decoded_again :
    (Parser.parse { recover := false }
      (some "<?xml version=\"1.0\" encoding=\"UTF-8\"?><a>é</a>") none).1 =
        .ok ⟨"a", [.text "é"]⟩ ∧
    (Parser.parse { recover := false }
      (some "<?xml version=\"1.0\" encoding=\"ISO-8859-1\"?><a>é</a>") none).1 =
        .ok ⟨"a", [.text "Ã©"]⟩ := by
  have hutf8 : Reads { recover := false }
      (some "<?xml version=\"1.0\" encoding=\"UTF-8\"?><a>é</a>") ⟨"a", [.text "é"]⟩ :=
    Parser.reads_of_read "<?xml version=\"1.0\" encoding=\"UTF-8\"?><a>é</a>".toList
      (by decide +kernel) (by decide +kernel) (by decide +kernel)
  have hlatin1 : Reads { recover := false }
      (some "<?xml version=\"1.0\" encoding=\"ISO-8859-1\"?><a>é</a>") ⟨"a", [.text "Ã©"]⟩ :=
    Parser.reads_of_read "<?xml version=\"1.0\" encoding=\"ISO-8859-1\"?><a>é</a>".toList
      (by decide +kernel) (by decide +kernel) (by decide +kernel)
  exact ⟨Parser.parse_eq_ok.mpr hutf8, Parser.parse_eq_ok.mpr hlatin1⟩

end XmlHarvest
