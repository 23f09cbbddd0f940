import Mathlib.Data.List.TakeWhile
import XmlHarvest.Proofs.Xml.Forward.Content
import XmlHarvest.Proofs.Xml.Reread

/-! # The two ends of a document

A document that a strict reading accepts ends with the mark of a tag, a comment or
an instruction, or with white space.  Each part of a document before its end
either leaves this to the text after it or is `Closed`: it ends so itself.  A
document begins so too, in any reading, except for a mark of byte order. -/
set_option autoImplicit false

namespace XmlHarvest.Xml

/-- The character ends a tag, a comment or an instruction, or it is white space. -/
def isEnd (c : Char) : Bool := c == '>' || isSpace c

/-- A text that is empty or ends with such a character. -/
def Tidy (cs : List Char) : Prop := ∀ c ∈ cs.getLast?, isEnd c = true

theorem tidy_nil : Tidy [] := fun _ h => nomatch h

theorem Tidy.of_suffix {rest cs : List Char} (h : rest <:+ cs) (hne : rest ≠ [])
    (ht : Tidy rest) : Tidy cs := by
  obtain ⟨front, rfl⟩ := h
  intro c hc
  rw [List.getLast?_append_of_ne_nil front hne] at hc
  exact ht c hc

def Scan.Refused (st : Scan) : Prop := st.fatal = true ∨ st.truncated = true

/-- From the first state to the second one, the end of the text was not lost: if
the text left over is tidy, then the whole text is. -/
structure Settled (st st' : Scan) : Prop where
  refused : st.Refused → st'.Refused
  nonempty : st'.input ≠ [] → st.input ≠ []
  tidy : st'.Refused ∨ (Tidy st'.input → Tidy st.input)

/-- Moreover there was a text to read. -/
structure Closed (st st' : Scan) : Prop extends Settled st st' where
  closed : st'.Refused ∨ st.input ≠ []

theorem Forward.refused {st st' : Scan} (h : Forward st st') : st.Refused → st'.Refused :=
  Or.imp h.fatal h.truncated

theorem Forward.nonempty {st st' : Scan} (h : Forward st st') (hne : st'.input ≠ []) :
    st.input ≠ [] := fun he => hne (List.suffix_nil.mp (he ▸ h.suffix))

namespace Settled

theorem refl (st : Scan) : Settled st st := ⟨id, id, .inr id⟩

theorem trans {a b c : Scan} (h : Settled a b) (h' : Settled b c) : Settled a c := by
  refine ⟨fun hr => h'.refused (h.refused hr), fun hne => h.nonempty (h'.nonempty hne), ?_⟩
  obtain hr | ht := h.tidy
  · exact .inl (h'.refused hr)
  · exact h'.tidy.imp_right fun ht' htidy => ht (ht' htidy)

/-- Reading on without touching the text. -/
theorem of_input_eq {st st' : Scan} (h : Forward st st') (heq : st'.input = st.input) :
    Settled st st' := ⟨h.refused, h.nonempty, .inr fun ht => heq ▸ ht⟩

end Settled

namespace Closed

/-- Whatever is read before a closed part, the whole is closed. -/
theorem after_forward {a b c : Scan} (h : Forward a b) (h' : Closed b c) : Closed a c := by
  refine ⟨⟨fun hr => h'.refused (h.refused hr), fun hne => h.nonempty (h'.nonempty hne), ?_⟩, ?_⟩
  · obtain hr | hne := h'.closed
    · exact .inl hr
    · exact h'.tidy.imp_right fun ht htidy => (ht htidy).of_suffix h.suffix hne
  · exact h'.closed.imp_right h.nonempty

theorem after_settled {a b c : Scan} (h : Settled a b) (h' : Closed b c) : Closed a c :=
  ⟨h.trans h'.toSettled, h'.closed.imp_right h.nonempty⟩

theorem then_settled {a b c : Scan} (h : Closed a b) (h' : Settled b c) : Closed a c :=
  ⟨h.toSettled.trans h', h.closed.imp_left h'.refused⟩

theorem of_refused {st st' : Scan} (h : Forward st st') (hr : st'.Refused) : Closed st st' :=
  ⟨⟨h.refused, h.nonempty, .inl hr⟩, .inl hr⟩

/-- Skipping a text whose last character is an end. -/
theorem of_append {st : Scan} {front rest : List Char} {c : Char} (h : st.input = front ++ rest)
    (hc : front.getLast? = some c) (hend : isEnd c = true) :
    Closed st { st with input := rest } := by
  have hne : st.input ≠ [] := by
    rw [h]
    refine List.append_ne_nil_of_left_ne_nil ?_ rest
    intro he
    rw [he] at hc
    cases hc
  have htidy : Tidy rest → Tidy st.input := by
    intro ht d hd
    rw [h, List.getLast?_append] at hd
    cases hlast : rest.getLast? with
    | none =>
      rw [hlast, hc] at hd
      cases hd
      exact hend
    | some e =>
      rw [hlast] at hd
      exact ht d (hlast.trans hd)
  exact ⟨⟨id, fun _ => hne, .inr htidy⟩, .inr hne⟩

end Closed

def Settles {α : Type} (x : ScanM α) : Prop := ∀ st, Settled st (x.run st).2

def Closes {α : Type} (x : ScanM α) : Prop := ∀ st, Closed st (x.run st).2

section Rules

variable {α β : Type} {x : ScanM α} {f : α → ScanM β}

theorem Closes.settles (h : Closes x) : Settles x := fun st => (h st).toSettled

theorem settles_pure (a : α) : Settles (pure a) := fun st => .refl st

theorem settles_bind (hx : Settles x) (hf : ∀ a, Settles (f a)) : Settles (x >>= f) :=
  fun st => (hx st).trans (hf _ _)

theorem settles_ite {p : Prop} [Decidable p] {y : ScanM α} (hx : Settles x) (hy : Settles y) :
    Settles (if p then x else y) := by
  split
  · exact hx
  · exact hy

theorem closes_bind (hx : Advances x) (hf : ∀ a, Closes (f a)) : Closes (x >>= f) :=
  fun st => .after_forward (hx st) (hf _ _)

theorem closes_after (hx : Settles x) (hf : ∀ a, Closes (f a)) : Closes (x >>= f) :=
  fun st => .after_settled (hx st) (hf _ _)

theorem closes_then (hx : Closes x) (hf : ∀ a, Settles (f a)) : Closes (x >>= f) :=
  fun st => (hx st).then_settled (hf _ _)

def Reports {α : Type} (x : ScanM (Option α)) : Prop :=
  ∀ st, (x.run st).1 = none → (x.run st).2.fatal = true

theorem reports_some (a : α) : Reports (pure (some a)) := fun _ h => nomatch h

theorem reports_bind {f : α → ScanM (Option β)} (h : ∀ a, Reports (f a)) :
    Reports (x >>= f) := fun _ => h _ _

theorem closes_bind_option {x : ScanM (Option α)} {f : Option α → ScanM β} (hx : Advances x)
    (hreports : Reports x) (hnone : Settles (f none)) (hsome : ∀ a, Closes (f (some a))) :
    Closes (x >>= f) := by
  intro st
  change Closed st ((f (x.run st).1).run (x.run st).2).2
  cases ha : (x.run st).1 with
  | none => exact (Closed.of_refused (hx st) (.inl (hreports st ha))).then_settled (hnone _)
  | some a => exact .after_forward (hx st) (hsome a _)

/-- Settled in every state in which `cs` is the text to come. -/
def SettlesOn {α : Type} (cs : List Char) (x : ScanM α) : Prop :=
  ∀ st : Scan, st.input = cs → Settled st (x.run st).2

theorem Settles.on {cs : List Char} (h : Settles x) : SettlesOn cs x := fun st _ => h st

/-- A front of the text may be skipped where something follows it. -/
theorem settlesOn_setInput_bind {cs rest : List Char} {f : Unit → ScanM β} (h : rest <:+ cs)
    (hne : rest ≠ []) (hf : Settles (f ())) : SettlesOn cs (setInput rest >>= f) := by
  rintro st rfl
  have hskip : Settled st { st with input := rest } :=
    ⟨id, (advancesOn_setInput h st rfl).nonempty, .inr fun ht => ht.of_suffix h hne⟩
  exact hskip.trans (hf _)

theorem settles_input_bind {f : List Char → ScanM β} (h : ∀ cs, SettlesOn cs (f cs)) :
    Settles (input >>= f) := fun _ => h _ _ rfl

/-- Closed in every state in which `cs` is the text to come. -/
def ClosesOn {α : Type} (cs : List Char) (x : ScanM α) : Prop :=
  ∀ st : Scan, st.input = cs → Closed st (x.run st).2

theorem closes_input_bind {f : List Char → ScanM β} (h : ∀ cs, ClosesOn cs (f cs)) :
    Closes (input >>= f) := fun _ => h _ _ rfl

theorem settles_of_input_eq (hx : Advances x) (h : ∀ st, (x.run st).2.input = st.input) :
    Settles x := fun st => .of_input_eq (hx st) (h st)

theorem closes_of_fatal (hx : Advances x) (h : ∀ st, (x.run st).2.fatal = true) : Closes x :=
  fun st => .of_refused (hx st) (.inl (h st))

end Rules

section Scanning

variable {α : Type}

theorem run_bind {β : Type} (x : ScanM α) (f : α → ScanM β) (st : Scan) :
    (x >>= f).run st = (f (x.run st).1).run (x.run st).2 := rfl

theorem input_run (st : Scan) : input.run st = (st.input, st) := rfl

theorem settles_get : Settles (get : ScanM Scan) := fun st => .refl st

theorem settles_report (s : Severity) : Settles (report s) :=
  settles_of_input_eq (advances_report s) fun _ => rfl

theorem closes_report : Closes (report .fatal) :=
  closes_of_fatal (advances_report .fatal) fun st => Bool.or_true st.fatal

/-- After a mistake was reported it makes no difference how reading goes on. -/
theorem closes_report_bind {f : Unit → ScanM α} (hf : ∀ a, Advances (f a)) :
    Closes (report .fatal >>= f) :=
  closes_of_fatal (advances_bind (advances_report .fatal) hf) fun st =>
    (hf _ _).fatal (Bool.or_true st.fatal)

theorem closes_halt : Closes halt := closes_of_fatal advances_halt fun _ => rfl

theorem settles_modify {f : Scan → Scan} (hf : ∀ st, Forward st (f st))
    (h : ∀ st, (f st).input = st.input) : Settles (modify f) := settles_of_input_eq hf h

theorem settles_addNode (n : Node) : Settles (addNode n) := by
  refine settles_modify (advances_addNode n) fun st => ?_
  split <;> rfl

theorem settles_closeFrame : Settles closeFrame := by
  refine settles_modify advances_closeFrame fun st => ?_
  split
  · rfl
  · dsimp only
    split <;> rfl

/-- White space is an end. -/
theorem settles_skipSpace : Settles skipSpace := by
  intro st
  have hforward := advances_skipSpace st
  refine ⟨hforward.refused, hforward.nonempty, .inr fun ht => ?_⟩
  change Tidy (st.input.dropWhile isSpace) at ht
  by_cases hrest : st.input.dropWhile isSpace = []
  · intro c hc
    have hspace := List.dropWhile_eq_nil_iff.mp hrest c (List.mem_of_getLast? hc)
    rw [isEnd, hspace, Bool.or_true]
  · exact ht.of_suffix hforward.suffix hrest

/-- What `accept` comes to: the text does not begin so, and is left as it is, or it
does, and the rest is left. -/
theorem accept_run (s : String) (st : Scan) :
    (accept s).run st = (false, st) ∨ ∃ rest, st.input = s.toList ++ rest ∧
      (accept s).run st = (true, { st with input := rest }) := by
  rw [accept, run_bind, input_run]
  dsimp only
  cases hrest : Text.afterStart? s.toList st.input with
  | none => exact .inl rfl
  | some rest => exact .inr ⟨rest, Text.afterStart?_eq_some.mp hrest, rfl⟩

variable {s : String} {f : Bool → ScanM α}

theorem settles_accept_bind (htrue : Closes (f true)) (hfalse : Settles (f false)) :
    Settles (accept s >>= f) := by
  intro st
  have hforward := advances_accept s st
  change Settled st ((f ((accept s).run st).1).run ((accept s).run st).2).2
  obtain hrun | ⟨rest, -, hrun⟩ := accept_run s st
  · rw [hrun]
    exact hfalse st
  · rw [hrun] at hforward ⊢
    exact (Closed.after_forward hforward (htrue _)).toSettled

/-- A mark that ends with an end; where it is missing, something else closes the
part. -/
theorem closes_accept_bind {c : Char} (hc : s.toList.getLast? = some c) (hend : isEnd c = true)
    (htrue : Settles (f true)) (hfalse : Closes (f false)) : Closes (accept s >>= f) := by
  intro st
  change Closed st ((f ((accept s).run st).1).run ((accept s).run st).2).2
  obtain hrun | ⟨rest, hinput, hrun⟩ := accept_run s st
  · rw [hrun]
    exact hfalse st
  · rw [hrun]
    exact (Closed.of_append hinput hc hend).then_settled (htrue _)

theorem closes_require {c : Char} (hc : s.toList.getLast? = some c) (hend : isEnd c = true) :
    Closes (require s) := by
  unfold require
  exact closes_accept_bind hc hend (settles_pure ()) closes_report

/-- The body of a part is there with its end, or that is reported. -/
theorem closes_bodyUpTo {c : Char} (hc : s.toList.getLast? = some c) (hend : isEnd c = true) :
    Closes (bodyUpTo s) := by
  unfold bodyUpTo
  refine closes_input_bind fun cs => ?_
  have hmissing : ClosesOn cs (do
      setInput (cs.dropWhile isDocumentChar)
      report .fatal
      return (none : Option (List Char))) := by
    intro st hst
    refine Closed.of_refused ?_ (.inl (Bool.or_true st.fatal))
    exact advancesOn_setInput_bind (List.dropWhile_suffix _) (advances_refuse .fatal none) st hst
  split
  · rename_i body rest hcut
    split
    · intro st hst
      have hlast : (body ++ s.toList).getLast? = some c := by
        rw [List.getLast?_append, hc]
        rfl
      exact .of_append (hst.trans (cutBefore?_eq_some hcut)) hlast hend
    · exact hmissing
  · exact hmissing

end Scanning

section Parts

theorem closes_comment : Closes comment := by
  unfold comment
  refine closes_then (closes_bodyUpTo rfl rfl) fun body? => ?_
  cases body? with
  | none => exact settles_pure ()
  | some body =>
    have hadd := settles_addNode (.comment (.ofChars body))
    exact settles_ite (settles_bind (settles_report .fatal) fun _ => hadd) hadd

theorem closes_instruction : Closes instruction := by
  unfold instruction
  refine closes_bind advances_name? fun target? => ?_
  cases target? with
  | none => exact closes_report
  | some target =>
    refine closes_bind (advances_checkTarget target) fun _ => ?_
    refine closes_accept_bind rfl rfl (settles_addNode (.instruction _ [])) ?_
    refine closes_bind advances_requireSpace fun _ => ?_
    refine closes_then (closes_bodyUpTo rfl rfl) fun body? => ?_
    cases body? with
    | none => exact settles_pure ()
    | some body => exact settles_addNode _

theorem settles_misc (fuel : Nat) : Settles (misc fuel) := by
  induction fuel with
  | zero => exact closes_halt.settles
  | succ fuel ih =>
    unfold misc
    refine settles_bind settles_skipSpace fun _ => ?_
    refine settles_accept_bind (closes_then closes_instruction fun _ => ih) ?_
    exact settles_accept_bind (closes_then closes_comment fun _ => ih) (settles_pure ())

theorem closes_endTag : Closes endTag := by
  unfold endTag
  refine closes_bind advances_get fun st => ?_
  refine closes_bind advances_name? fun found => ?_
  refine closes_bind advances_skipSpace fun _ => ?_
  refine closes_then (closes_require rfl rfl) fun _ => ?_
  exact settles_ite (settles_bind (settles_report .fatal) fun _ => settles_closeFrame)
    settles_closeFrame

theorem reports_startTag? (outer : Namespaces) : Reports (startTag? outer) := by
  unfold startTag?
  refine reports_bind fun name? => ?_
  cases name? with
  | none => exact fun st _ => Bool.or_true st.fatal
  | some q =>
    refine reports_bind fun _ => reports_bind fun cs => reports_bind fun attrs => ?_
    refine reports_bind fun st => ?_
    dsimp only
    split
    · exact reports_bind fun _ => reports_bind fun _ => reports_some _
    · exact reports_bind fun _ => reports_some _

/-- A start tag ends with its mark; one that does not is reported. -/
theorem closes_openElement : Closes openElement := by
  unfold openElement
  refine closes_bind advances_get fun st => ?_
  dsimp only
  split
  · exact closes_halt
  · refine closes_bind_option (advances_startTag? _) (reports_startTag? _) (settles_pure ()) ?_
    intro frame
    refine closes_bind (advances_openFrame frame) fun _ => ?_
    refine closes_accept_bind rfl rfl settles_closeFrame ?_
    refine closes_accept_bind rfl rfl (settles_pure ()) ?_
    exact closes_then closes_report fun _ => settles_closeFrame

theorem settles_closeAbove (base fuel : Nat) : Settles (closeAbove base fuel) := by
  induction fuel with
  | zero => exact settles_pure ()
  | succ fuel ih =>
    unfold closeAbove
    refine settles_bind settles_get fun st => ?_
    exact settles_ite (settles_bind settles_closeFrame fun _ => ih) (settles_pure ())

/-- An element ends with its only tag or with its end tag; what its content ends
with makes no difference. -/
theorem closes_rootElement (fuel : Nat) : Closes (rootElement fuel) := by
  unfold rootElement
  refine closes_then closes_openElement fun _ => ?_
  refine settles_bind settles_get fun st => settles_ite (settles_pure ()) ?_
  refine Closes.settles (closes_bind (advances_content fuel 1 []) fun _ => ?_)
  refine closes_bind (advances_accept "</") fun isEndTag => ?_
  cases isEndTag with
  | true => exact closes_endTag
  | false =>
    refine closes_then closes_report fun _ => ?_
    exact settles_bind settles_get fun st => settles_closeAbove _ _

theorem closes_doctype (fuel : Nat) : Closes (doctype fuel) := by
  have hend : Closes (require ">") := closes_require rfl rfl
  unfold doctype
  refine closes_bind advances_doctypeHead fun _ => ?_
  refine closes_bind (advances_accept "[") fun hasSubset => ?_
  cases hasSubset with
  | true =>
    refine closes_bind (advances_internalSubset fuel) fun _ => ?_
    exact closes_bind advances_skipSpace fun _ => hend
  | false => exact hend

theorem settles_prolog (fuel : Nat) : Settles (prolog fuel) := by
  unfold prolog
  refine settles_bind (settles_misc fuel) fun _ => ?_
  refine settles_accept_bind ?_ (settles_pure ())
  exact closes_then (closes_doctype fuel) fun _ => settles_misc fuel

end Parts

section Documents

theorem isAscii_of_isEnd {c : Char} (h : isEnd c = true) : Charset.IsAscii c := by
  have hmark : c = '>' ∨ c = ' ' ∨ c = '\t' ∨ c = '\n' ∨ c = '\r' := by
    simpa [isEnd, isSpace, or_assoc] using h
  rcases hmark with rfl | rfl | rfl | rfl | rfl <;> decide

/-- An end in the declared encoding was an end before. -/
theorem tidy_of_reread {charset : Charset} {cs cs' : List Char}
    (h : charset.reread cs = (cs', true)) (ht : Tidy cs') : Tidy cs := by
  cases hlast : cs'.getLast? with
  | none =>
    rw [List.getLast?_eq_none_iff.mp hlast] at h
    rw [Charset.eq_nil_of_reread h]
    exact tidy_nil
  | some c =>
    have hend : isEnd c = true := ht c hlast
    have hsame := Charset.getLast?_of_reread h hlast (isAscii_of_isEnd hend)
    intro d hd
    cases hsame.symm.trans hd
    exact hend

/-- In the declared encoding the text may break off, but then it is refused. -/
theorem settled_reread (charset : Charset) (st : Scan) :
    Settled st { st with
      input := (charset.reread st.input).1
      truncated := st.truncated || !(charset.reread st.input).2 } := by
  obtain ⟨cs, whole, hread⟩ : ∃ cs whole, charset.reread st.input = (cs, whole) := ⟨_, _, rfl⟩
  rw [hread]
  have hnonempty : cs ≠ [] → st.input ≠ [] := by
    intro hne he
    rw [he, Charset.reread_nil] at hread
    cases hread
    exact hne rfl
  refine ⟨Or.imp_right fun ht => ?_, hnonempty, ?_⟩
  · rw [ht]
    rfl
  · cases whole with
    | false => exact .inl (.inr (Bool.or_true _))
    | true => exact .inr (tidy_of_reread hread)

theorem settles_switchTo (name : List Char) : Settles (switchTo name) := by
  unfold switchTo
  refine settles_bind settles_get fun st => settles_ite (settles_pure ()) ?_
  cases Charset.ofName? name with
  | some charset => exact settled_reread charset
  | none => exact settles_report .fatal

/-- Where the declaration does not end, that is reported. -/
theorem closes_standaloneItem : Closes standaloneItem := by
  have hend : Closes (do
      let _ ← skipSpace
      if ← accept "?>" then return
      else
        report .fatal
        setInput ((← input).dropWhile (· != '>'))
        let _ ← accept ">") := by
    refine closes_after settles_skipSpace fun _ => ?_
    refine closes_accept_bind rfl rfl (settles_pure ()) ?_
    refine closes_report_bind fun _ => advances_input_bind fun cs => ?_
    refine advancesOn_setInput_bind (List.dropWhile_suffix _) ?_
    exact advances_bind (advances_accept ">") fun _ => advances_pure ()
  unfold standaloneItem
  refine closes_bind (advances_declarationItem _ advances_standaloneValue?) fun standalone? => ?_
  cases standalone? with
  | none => exact hend
  | some b =>
    refine closes_bind (advances_modify fun _ => ⟨List.suffix_rfl, id, id⟩) fun _ => hend

theorem closes_encodingItem : Closes encodingItem := by
  unfold encodingItem
  refine closes_bind (advances_declarationItem _ advances_encodingName?) fun name? => ?_
  cases name? with
  | none => exact closes_standaloneItem
  | some name =>
    refine closes_after (settles_switchTo name) fun _ => ?_
    refine closes_accept_bind rfl rfl (settles_pure ()) ?_
    exact closes_bind advances_requireSpace fun _ => closes_standaloneItem

theorem closes_declaration : Closes declaration := by
  unfold declaration
  refine closes_bind advances_versionItem fun _ => ?_
  refine closes_accept_bind rfl rfl (settles_pure ()) ?_
  exact closes_bind advances_requireSpace fun _ => closes_encodingItem

theorem settles_checkEnd : Settles checkEnd := by
  unfold checkEnd
  refine settles_bind settles_get fun st => ?_
  exact settles_ite (settles_report .fatal) (settles_pure ())

theorem settles_documentBody (fuel : Nat) : Settles (documentBody fuel) := by
  unfold documentBody
  refine settles_bind (settles_prolog fuel) fun _ => ?_
  refine settles_accept_bind ?_ (settles_report .fatal)
  refine closes_then (closes_rootElement fuel) fun _ => ?_
  exact settles_bind (settles_misc fuel) fun _ => settles_checkEnd

theorem settles_document : Settles document := by
  have hbody : Settles (do documentBody (8 * (← input).length + 64)) :=
    settles_input_bind fun rest => (settles_documentBody _).on
  unfold document
  refine settles_input_bind fun cs => ?_
  split
  · exact closes_halt.settles.on
  · dsimp only
    split
    · rename_i c rest hstart
      split
      · refine settlesOn_setInput_bind (afterStart?_suffix hstart) (List.cons_ne_nil c rest) ?_
        exact settles_bind closes_declaration.settles fun _ => hbody
      · exact hbody.on
    · exact hbody.on

def Finishes {α : Type} (x : ScanM α) : Prop :=
  ∀ st, (x.run st).2.fatal = true ∨ (x.run st).2.input = [] ∧ (x.run st).2.truncated = false

theorem finishes_bind {α β : Type} {x : ScanM α} {f : α → ScanM β} (h : ∀ a, Finishes (f a)) :
    Finishes (x >>= f) := fun _ => h _ _

theorem finishes_report : Finishes (report .fatal) := fun st => .inl (Bool.or_true st.fatal)

theorem finishes_checkEnd : Finishes checkEnd := by
  intro st
  have hrun : checkEnd.run st =
      StateT.run (if !st.input.isEmpty || st.truncated then report .fatal else pure ()) st := rfl
  rw [hrun]
  split
  · exact finishes_report st
  · rename_i hwhole
    rw [Bool.not_eq_true, Bool.or_eq_false_iff, Bool.not_eq_false', List.isEmpty_iff] at hwhole
    exact .inr hwhole

theorem finishes_documentBody (fuel : Nat) : Finishes (documentBody fuel) := by
  unfold documentBody
  refine finishes_bind fun _ => finishes_bind fun hasElement => ?_
  cases hasElement with
  | true => exact finishes_bind fun _ => finishes_bind fun _ => finishes_checkEnd
  | false => exact finishes_report

theorem finishes_document : Finishes document := by
  have hbody : Finishes (do documentBody (8 * (← input).length + 64)) :=
    finishes_bind fun rest => finishes_documentBody _
  unfold document
  refine finishes_bind fun cs => ?_
  split
  · exact fun st => .inl rfl
  · dsimp only
    split
    · split
      · exact finishes_bind fun _ => finishes_bind fun _ => hbody
      · exact hbody
    · exact hbody

end Documents

theorem start_eq (cs : List Char) : Scan.start cs = { input := cs } ∨
    ∃ c rest, cs = '\ufeff' :: c :: rest ∧
      Scan.start cs = { input := c :: rest, marked := true } := by
  unfold Scan.start
  split
  · exact .inr ⟨_, _, rfl, rfl⟩
  · exact .inl rfl

/-- A document that a strict reading accepts is tidy. -/
theorem tidy_of_read {cs : List Char} {e : Element} (h : read false cs = .root e) : Tidy cs := by
  have hsettled := settles_document (Scan.start cs)
  have hstart : Tidy (Scan.start cs).input := by
    obtain hfatal | ⟨hinput, hwhole⟩ := finishes_document (Scan.start cs)
    · simp [read, hfatal] at h
    · obtain (hfatal | htruncated) | htidy := hsettled.tidy
      · simp [read, hfatal] at h
      · rw [htruncated] at hwhole
        cases hwhole
      · exact htidy (hinput ▸ tidy_nil)
  obtain heq | ⟨c, rest, rfl, heq⟩ := start_eq cs
  · rw [heq] at hstart
    exact hstart
  · rw [heq] at hstart
    exact hstart.of_suffix (List.suffix_cons _ _) (List.cons_ne_nil c rest)

section Beginnings

variable {st : Scan} {c : Char} {rest : List Char}

theorem accept_run_of_ne {s : String} {d : Char} {ds : List Char} (hs : s.toList = d :: ds)
    (hst : st.input = c :: rest) (hne : c ≠ d) : (accept s).run st = (false, st) := by
  obtain hrun | ⟨rest', hinput, -⟩ := accept_run s st
  · exact hrun
  · rw [hst, hs] at hinput
    exact absurd (List.cons.inj hinput).1 hne

theorem misc_run (fuel : Nat) (hst : st.input = c :: rest) (hspace : isSpace c = false)
    (hmark : c ≠ '<') : (misc (fuel + 1)).run st = ((), st) := by
  have hskip : skipSpace.run st = (false, st) := by
    have hrest : (c :: rest).dropWhile isSpace = c :: rest :=
      List.dropWhile_cons_of_neg (by rw [hspace]; exact Bool.false_ne_true)
    rw [skipSpace, run_bind, input_run, hst]
    dsimp only
    rw [hrest, ← hst]
    exact Prod.ext hspace rfl
  have hinstruction : (accept "<?").run st = (false, st) := accept_run_of_ne rfl hst hmark
  have hcomment : (accept "<!--").run st = (false, st) := accept_run_of_ne rfl hst hmark
  rw [misc, run_bind, hskip, run_bind, hinstruction]
  change ((accept "<!--" >>= _).run st) = _
  rw [run_bind, hcomment]
  rfl

theorem prolog_run (fuel : Nat) (hst : st.input = c :: rest) (hspace : isSpace c = false)
    (hmark : c ≠ '<') : (prolog (fuel + 1)).run st = ((), st) := by
  have hdoctype : (accept "<!DOCTYPE").run st = (false, st) := accept_run_of_ne rfl hst hmark
  rw [prolog, run_bind, misc_run fuel hst hspace hmark, run_bind, hdoctype]
  rfl

/-- Without the mark of a tag there is no element. -/
theorem document_run (hst : st.input = c :: rest) (hspace : isSpace c = false)
    (hmark : c ≠ '<') : (document.run st).2 = ((report .fatal).run st).2 := by
  have htag : (accept "<").run st = (false, st) := accept_run_of_ne rfl hst hmark
  obtain ⟨fuel, hfuel⟩ : ∃ fuel, 8 * st.input.length + 64 = fuel + 1 :=
    Nat.exists_eq_add_one.mpr (by omega)
  have hbody : (input >>= fun cs => documentBody (8 * cs.length + 64)).run st =
      (report .fatal).run st := by
    rw [run_bind, input_run]
    dsimp only
    rw [hfuel, documentBody, run_bind, prolog_run fuel hst hspace hmark, run_bind, htag]
    rfl
  have hdeclaration : Text.afterStart? "<?xml".toList (c :: rest) = none := by
    cases hrest : Text.afterStart? "<?xml".toList (c :: rest) with
    | none => rfl
    | some after =>
      have heq := Text.afterStart?_eq_some.mp hrest
      exact absurd (List.cons.inj heq).1 hmark
  have hinput : input.run st = (c :: rest, st) := congrArg (·, st) hst
  rw [document, run_bind, hinput]
  dsimp only
  rw [hdeclaration]
  dsimp only [pure_bind]
  rw [hbody]

theorem root_of_read {recover : Bool} {cs : List Char} {e : Element}
    (h : read recover cs = .root e) :
    (document.run (Scan.start cs)).2.root = some e := by
  simp only [read] at h
  split at h
  · cases h
  · split at h
    · rename_i root hroot
      cases h
      exact hroot
    · cases h

/-- A document begins with the mark of a tag, white space or a mark of byte order. -/
theorem head?_of_read {recover : Bool} {cs : List Char} {e : Element}
    (h : read recover cs = .root e) :
    ∃ c, cs.head? = some c ∧ (c = '<' ∨ isSpace c = true ∨ c = '\ufeff') := by
  cases cs with
  | nil => cases recover <;> cases h
  | cons c rest =>
    refine ⟨c, rfl, ?_⟩
    by_contra hc
    obtain ⟨hmark, hspace, horder⟩ : c ≠ '<' ∧ isSpace c = false ∧ c ≠ '\ufeff' := by
      simpa [not_or] using hc
    obtain heq | ⟨c', rest', hcons, heq⟩ := start_eq (c :: rest)
    · have hroot := root_of_read h
      rw [heq, document_run rfl hspace hmark] at hroot
      cases hroot
    · exact horder (List.cons.inj hcons).1

end Beginnings

end XmlHarvest.Xml
