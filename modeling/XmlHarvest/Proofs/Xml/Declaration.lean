import Mathlib.Data.List.TakeWhile
import XmlHarvest.Proofs.Xml.Ends

/-! # Documents that declare an encoding

The declaration of a document that names an encoding has one effect: what follows
it is read anew in that encoding.  Nothing else is left of the name, so a document
is read as the text that its bytes are in the declared encoding. -/
set_option autoImplicit false

namespace XmlHarvest.Xml

namespace Charset

def isNameLater (c : Char) : Bool :=
  isLetter c || isDecimal c || "._-".toList.contains c

def IsName (name : List Char) : Prop :=
  ∃ c rest, name = c :: rest ∧ isLetter c = true ∧ ∀ d ∈ rest, isNameLater d = true

theorem toUpper_eq_or_isLetter (c : Char) : c.toUpper = c ∨ isLetter c = true := by
  unfold Char.toUpper
  split
  · rename_i h
    right
    have hlow : 97 ≤ c.toNat ∧ c.toNat ≤ 122 := h
    simp [isLetter, hlow]
  · exact Or.inl rfl

theorem isName_of_map_toUpper {name : List Char} (h : IsName (name.map Char.toUpper)) :
    IsName name := by
  obtain ⟨c, rest, hmap, hc, hrest⟩ := h
  obtain ⟨c', rest', rfl, rfl, rfl⟩ := List.map_eq_cons_iff.mp hmap
  refine ⟨c', rest', rfl, ?_, ?_⟩
  · rcases toUpper_eq_or_isLetter c' with heq | hletter
    · rwa [heq] at hc
    · exact hletter
  · intro d hd
    have hlater := hrest _ (List.mem_map_of_mem hd)
    rcases toUpper_eq_or_isLetter d with heq | hletter
    · rwa [heq] at hlater
    · simp [isNameLater, hletter]

theorem isName_of_ofName? {name : List Char} {charset : Charset}
    (h : ofName? name = some charset) : IsName name := by
  have hall : (names.all fun p =>
      p.1.toList.head?.any isLetter && p.1.toList.tail.all isNameLater) = true := by
    decide +kernel
  obtain ⟨before, after, hnames, -⟩ := List.lookup_eq_some_iff.mp h
  have hmem : (String.ofList (name.map Char.toUpper), charset) ∈ names := by
    rw [hnames]
    simp
  have hname := List.all_eq_true.mp hall _ hmem
  rw [String.toList_ofList, Bool.and_eq_true, Option.any_eq_true, List.all_eq_true] at hname
  obtain ⟨⟨c, hhead, hc⟩, hlater⟩ := hname
  exact isName_of_map_toUpper ⟨c, _, (List.cons_head?_tail hhead).symm, hc, hlater⟩

theorem utf8_of_ascii {c : Char} (h : c.toNat < 0x80) :
    (String.utf8EncodeChar c).map UInt8.toNat = [c.toNat] := by
  have hval : c.val.toNat = c.toNat := rfl
  have hsmall : c.toNat ≤ 0x7f := by omega
  simp [String.utf8EncodeChar, hval, hsmall]
  omega

theorem ofByte?_of_ascii (charset : Charset) {c : Char} (h : c.toNat < 0x80) :
    charset.ofByte? c.toNat = some c := by
  simp [ofByte?, h, Char.ofNat_toNat]

theorem decode_append_of_ascii (charset : Charset) {front : List Char} {bytes : List Nat}
    (h : ∀ c ∈ front, c.toNat < 0x80) :
    charset.decode ((front.flatMap fun c => (String.utf8EncodeChar c).map UInt8.toNat) ++ bytes) =
      (front ++ (charset.decode bytes).1, (charset.decode bytes).2) := by
  induction front with
  | nil => rfl
  | cons c front ih =>
    have hc : c.toNat < 0x80 := h c List.mem_cons_self
    have hfront : ∀ d ∈ front, d.toNat < 0x80 := fun d hd => h d (List.mem_cons_of_mem c hd)
    simp [utf8_of_ascii hc, decode, ofByte?_of_ascii charset hc, ih hfront]

/-- ASCII is the same in each encoding. -/
theorem reread_append_of_ascii (charset : Charset) {front : List Char} (cs : List Char)
    (h : ∀ c ∈ front, c.toNat < 0x80) :
    charset.reread (front ++ cs) = (front ++ (charset.reread cs).1, (charset.reread cs).2) := by
  cases charset with
  | utf8 => rfl
  | ascii | latin1 | latin9 | windows1252 =>
    simp only [reread, List.flatMap_append]
    exact decode_append_of_ascii _ h

theorem reread_of_ascii (charset : Charset) {cs : List Char} (h : ∀ c ∈ cs, c.toNat < 0x80) :
    charset.reread cs = (cs, true) := by
  have happend := reread_append_of_ascii charset [] h
  simpa [reread_nil] using happend

end Charset

def declarationOf (name : List Char) : List Char :=
  "<?xml".toList ++ ' ' :: ("version=\"1.0\"".toList ++
    (' ' :: ("encoding=\"".toList ++ (name ++ '"' :: "?>".toList))))

section Declarations

variable {st : Scan} {rest name cs : List Char} {charset : Charset}

theorem versionItem_run (hst : st.input = ' ' :: ("version=\"1.0\"".toList ++ rest)) :
    versionItem.run st = ((), { st with input := rest }) := by
  have heq : st = { st with input := ' ' :: ("version=\"1.0\"".toList ++ rest) } := by rw [← hst]
  rw [heq]
  rfl

theorem encodingName?_run (h : Charset.IsName name) (hst : st.input = name ++ '"' :: rest) :
    encodingName?.run st = (some name, { st with input := '"' :: rest }) := by
  obtain ⟨c, later, rfl, hc, hlater⟩ := h
  have htake : (later ++ '"' :: rest).takeWhile Charset.isNameLater = later := by
    rw [List.takeWhile_append_of_pos hlater]
    simp [Charset.isNameLater, isLetter, isDecimal]
  have hdrop : (later ++ '"' :: rest).dropWhile Charset.isNameLater = '"' :: rest := by
    rw [List.dropWhile_append_of_pos hlater]
    rfl
  rw [encodingName?, run_bind, input_run, hst]
  change (if isLetter c = true then _ else _ : ScanM (Option (List Char))).run _ = _
  rw [if_pos hc, run_bind]
  change (some (c :: (later ++ '"' :: rest).takeWhile Charset.isNameLater),
    { st with input := (later ++ '"' :: rest).dropWhile Charset.isNameLater }) = _
  rw [htake, hdrop]

theorem accept_run_of_start {s : String} (hst : st.input = s.toList ++ rest) :
    (accept s).run st = (true, { st with input := rest }) := by
  have hstart : Text.afterStart? s.toList st.input = some rest := Text.afterStart?_eq_some.mpr hst
  rw [accept, run_bind, input_run]
  dsimp only
  rw [hstart]
  rfl

theorem encodingDeclaration_run (h : Charset.IsName name)
    (hst : st.input = "encoding=\"".toList ++ (name ++ '"' :: rest)) :
    (declarationItem "encoding" encodingName?).run st = (some name, { st with input := rest }) := by
  have hname : encodingName?.run { st with input := name ++ '"' :: rest } =
      (some name, { st with input := '"' :: rest }) := encodingName?_run h rfl
  have heq : st = { st with input := "encoding=\"".toList ++ (name ++ '"' :: rest) } := by
    rw [← hst]
  rw [heq]
  change (encodingName? >>= fun v => require "\"" >>= fun _ => pure v).run
    { st with input := name ++ '"' :: rest } = _
  rw [run_bind, hname]
  rfl

/-- What follows the name of an encoding is read anew. -/
theorem switchTo_run (h : Charset.ofName? name = some charset) (hmark : st.marked = false) :
    (switchTo name).run st = ((), { st with
      input := (charset.reread st.input).1
      truncated := st.truncated || !(charset.reread st.input).2 }) := by
  rw [switchTo, run_bind]
  change (if st.marked = true then _ else _ : ScanM Unit).run st = _
  rw [if_neg (by simp [hmark]), h]
  rfl

theorem encodingItem_run (h : Charset.ofName? name = some charset)
    (hst : st.input = "encoding=\"".toList ++ (name ++ '"' :: ("?>".toList ++ cs)))
    (hmark : st.marked = false) :
    encodingItem.run st = ((), { st with
      input := (charset.reread cs).1
      truncated := st.truncated || !(charset.reread cs).2 }) := by
  have hall : ("?>".toList.all fun c => decide (c.toNat < 0x80)) = true := by decide
  have hascii : ∀ c ∈ "?>".toList, c.toNat < 0x80 := fun c hc =>
    of_decide_eq_true (List.all_eq_true.mp hall c hc)
  have hreread := Charset.reread_append_of_ascii charset cs hascii
  have hswitch : (switchTo name).run { st with input := "?>".toList ++ cs } = _ :=
    switchTo_run h hmark
  rw [encodingItem, run_bind, encodingDeclaration_run (Charset.isName_of_ofName? h) hst]
  dsimp only
  rw [run_bind, hswitch]
  dsimp only
  rw [hreread, run_bind, accept_run_of_start rfl]
  rfl

theorem declaration_run (h : Charset.ofName? name = some charset)
    (hst : st.input = ' ' :: ("version=\"1.0\"".toList ++
      (' ' :: ("encoding=\"".toList ++ (name ++ '"' :: ("?>".toList ++ cs))))))
    (hmark : st.marked = false) :
    declaration.run st = ((), { st with
      input := (charset.reread cs).1
      truncated := st.truncated || !(charset.reread cs).2 }) := by
  have hitem : encodingItem.run { st with
      input := "encoding=\"".toList ++ (name ++ '"' :: ("?>".toList ++ cs)) } = _ :=
    encodingItem_run h rfl hmark
  rw [declaration, run_bind, versionItem_run hst]
  exact hitem

theorem document_run_of_declaration {c : Char} (hst : st.input = "<?xml".toList ++ c :: rest)
    (hspace : isSpace c = true) :
    document.run st = (declaration >>= fun _ => input >>= fun cs =>
      documentBody (8 * cs.length + 64)).run { st with input := c :: rest } := by
  obtain ⟨more, hmore⟩ : ∃ more, "<?xml".toList ++ c :: rest = '<' :: more := ⟨_, rfl⟩
  have htag : Text.afterStart? "<?xml".toList ('<' :: more) = some (c :: rest) :=
    Text.afterStart?_eq_some.mpr hmore.symm
  rw [document, run_bind, input_run, hst, hmore]
  dsimp only
  rw [htag]
  dsimp only
  rw [if_pos hspace, run_bind]
  rfl

end Declarations

def Scan.outcome (recover : Bool) (st : Scan) : Reading :=
  if !(!st.halted && (recover || !(st.fatal || st.last == some .error))) then
    .refused "not well-formed"
  else
    match st.root with
    | some e => .root e
    | none => .rootless

theorem read_eq_outcome (recover : Bool) (cs : List Char) :
    read recover cs = (document.run (Scan.start cs)).2.outcome recover := by
  unfold read Scan.outcome
  generalize (document.run (Scan.start cs)).2 = st
  rfl

/-- What comes of a text that follows a declaration; `whole` tells whether all of
its bytes have a reading. -/
def readRest (recover : Bool) (cs : List Char) (whole : Bool) : Reading :=
  ((documentBody (8 * cs.length + 64)).run { input := cs, truncated := !whole }).2.outcome recover

/-- A document that declares an encoding is read as the text that its bytes are in
that encoding. -/
theorem read_declarationOf {recover : Bool} {name cs : List Char} {charset : Charset}
    (h : Charset.ofName? name = some charset) :
    read recover (declarationOf name ++ cs) =
      readRest recover (charset.reread cs).1 (charset.reread cs).2 := by
  have hshape : declarationOf name ++ cs = "<?xml".toList ++ ' ' :: ("version=\"1.0\"".toList ++
      (' ' :: ("encoding=\"".toList ++ (name ++ '"' :: ("?>".toList ++ cs))))) := by
    simp only [declarationOf, List.append_assoc, List.cons_append]
  have hstart : Scan.start (declarationOf name ++ cs) = { input := declarationOf name ++ cs } := by
    rcases start_eq (declarationOf name ++ cs) with hstart | ⟨c, rest, hmark, -⟩
    · exact hstart
    -- a declaration does not begin with a byte order mark
    · rw [hshape] at hmark
      cases (List.cons.inj hmark).1
  have hdeclaration : declaration.run { input := ' ' :: ("version=\"1.0\"".toList ++
      (' ' :: ("encoding=\"".toList ++ (name ++ '"' :: ("?>".toList ++ cs))))) } = _ :=
    declaration_run h rfl rfl
  have hdocument : document.run { input := declarationOf name ++ cs } =
      (documentBody (8 * (charset.reread cs).1.length + 64)).run
        { input := (charset.reread cs).1, truncated := !(charset.reread cs).2 } := by
    rw [document_run_of_declaration hshape (by decide), run_bind, hdeclaration, run_bind, input_run]
    simp only [Bool.false_or]
  rw [read_eq_outcome, hstart, hdocument, readRest]

end XmlHarvest.Xml
