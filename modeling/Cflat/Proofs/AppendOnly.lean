import Cflat.Asm.Operation
import Mathlib.Data.List.Induction

/-!
# An emitter only appends

Whatever is asked of an emitter, in whatever order, its listing only grows at the end, and
an operation that fails leaves no trace.

* Widths.  A width can be encoded if it has a suffix.
* Tables.  The mnemonic, the operands and the widths of each operation, and from them the
  error that it has and the lines that it adds.
* Operations.  `Emitter.respond_cases` says all that a single operation can do.
* Runs.  `Emitter.AppendOnly` follows by an induction over the operations.
-/

namespace Cflat.Asm

/-! ## Widths -/

/-- Whether a width can be encoded. -/
def hasSuffix (width : Int64) : Bool :=
  width = 1 || width = 2 || width = 4

theorem exists_suffixIn {width : Int64} (mnemonic : String) (h : hasSuffix width = true) :
    ∃ s, suffix? width = some s ∧ suffixIn mnemonic width = .ok s := by
  simp only [hasSuffix, Bool.or_eq_true, decide_eq_true_eq] at h
  rcases h with (rfl | rfl) | rfl
  · exact ⟨"b", rfl, rfl⟩
  · exact ⟨"w", rfl, rfl⟩
  · exact ⟨"l", rfl, rfl⟩

theorem suffixIn_eq_error {width : Int64} (mnemonic : String) (h : hasSuffix width = false) :
    suffixIn mnemonic width = .error ⟨width, mnemonic⟩ := by
  simp only [hasSuffix, Bool.or_eq_false_iff, decide_eq_false_iff_not] at h
  obtain ⟨⟨h1, h2⟩, h4⟩ := h
  simp [suffixIn, suffix?, h1, h2, h4]

/-! ## Tables -/

namespace Operation

/-- The mnemonic of an operation, empty if it adds no instruction. -/
def mnemonic : Operation → String
  | jump j _ => j.mnemonic
  | callAbsolute _ => "call"
  | ret => "ret"
  | mov .. | movT .. => "mov"
  | movsx .. | movsbl .. | movswl .. => "movs"
  | movzx .. | movzb .. | movzbl .. | movzwl .. => "movz"
  | lea .. | leaT .. => "lea"
  | neg .. => "neg"
  | inc .. => "inc"
  | dec .. => "dec"
  | add .. | addT .. => "add"
  | sub .. | subT .. => "sub"
  | imul .. | imulT .. => "imul"
  | cltd => "cltd"
  | div .. => "div"
  | idiv .. => "idiv"
  | not .. => "not"
  | and .. => "and"
  | or .. => "or"
  | xor .. => "xor"
  | sar .. => "sar"
  | sal .. => "sal"
  | shr .. => "shr"
  | cmp .. => "cmp"
  | test .. => "test"
  | set c _ => c.mnemonic
  | push _ => "push"
  | pop _ => "pop"
  | _ => ""

/-- The operands of an operation, the source before the destination. -/
def operands : Operation → List Operand
  | jump _ target => [.direct target 0]
  | callAbsolute r => [.absolute r]
  | mov x y | movT _ x y | movsx _ _ x y | movzx _ _ x y | movsbl x y | movswl x y | movzb _ x y
  | movzbl x y | movzwl x y | lea x y | leaT _ x y | add x y | addT _ x y | sub x y | subT _ x y =>
    [x, y]
  | inc _ x | dec _ x => [x]
  | neg _ r | div _ r | idiv _ r | not _ r | set _ r | push r | pop r => [.register r]
  | imul x r | imulT _ x r | and _ x r | or _ x r | xor _ x r | cmp _ x r => [x, .register r]
  | sar _ x y | sal _ x y | shr _ x y | test _ x y => [.register x, .register y]
  | _ => []

/-- The part of the suffix that is there whatever the widths. -/
def lead : Operation → String
  | movsbl .. | movzbl .. => "bl"
  | movswl .. | movzwl .. => "wl"
  | movzb .. => "b"
  | _ => ""

/-- The widths that an operation has to encode, the source before the destination. -/
def widths (natural : Int64) : Operation → List Int64
  | mov .. | lea .. | add .. | sub .. | imul .. | push _ | pop _ => [natural]
  | movT width .. | movzb width .. | leaT width .. | neg width _ | inc width _ | dec width _
  | addT width .. | subT width .. | imulT width .. | div width _ | idiv width _ | not width _
  | and width .. | or width .. | xor width .. | sar width .. | sal width .. | shr width ..
  | cmp width .. | test width .. => [width]
  | movsx sourceWidth destWidth .. | movzx sourceWidth destWidth .. => [sourceWidth, destWidth]
  | _ => []

/-- The error for the first width that cannot be encoded. -/
def widthError? (natural : Int64) (op : Operation) : Option WidthError :=
  ((op.widths natural).find? fun width => !hasSuffix width).map fun width => ⟨width, op.mnemonic⟩

/-- The suffix of an operation whose widths can be encoded, one letter for each. -/
def suffix (natural : Int64) (op : Operation) : String :=
  op.lead ++ String.join ((op.widths natural).filterMap suffix?)

/-- What an operation that succeeds appends when the comment indent is `indent`. -/
def added (natural : Int64) (indent : Int) : Operation → Listing
  | append elements => elements
  | indentComment | unindentComment => []
  | comment text => [.comment text indent]
  | label name => [.label name]
  | directive d => [.directive d]
  | op => [.instruction op.mnemonic (op.suffix natural) op.operands]

/-- By how much an operation turns the comment indent. -/
def turn : Operation → Int
  | indentComment => 1
  | unindentComment => -1
  | _ => 0

/-- The running count of indents, which never falls below zero. -/
def runningIndent (ops : List Operation) : Nat :=
  ops.foldl (fun n op => ((n : Int) + op.turn).toNat) 0

end Operation

/-! ## Operations -/

namespace Emitter

open Operation

variable {a : Emitter} {op : Operation} {width : Int64}

/-- The operation adds its lines and turns the comment indent, unless one of its widths cannot be
encoded; it changes nothing then. -/
def Performs (a : Emitter) (op : Operation) : Prop :=
  (∃ e, op.widthError? a.natural = some e ∧ a.respond op = (.error e, a)) ∨
    (op.widthError? a.natural = none ∧ a.respond op = (.ok (), { a with
      listing := a.listing ++ op.added a.natural a.commentIndent
      commentIndent := (a.commentIndent + op.turn).toNat }))

/-- Operations that add lines of their own and have no width. -/
theorem performs_of_appends (hindent : 0 ≤ a.commentIndent) (hturn : op.turn = 0)
    (hnone : op.widthError? a.natural = none)
    (hrespond : a.respond op = (.ok (), { a with
      listing := a.listing ++ op.added a.natural a.commentIndent })) : a.Performs op := by
  have hkeep : ((a.commentIndent + 0).toNat : Int) = a.commentIndent := by omega
  refine .inr ⟨hnone, ?_⟩
  rw [hrespond, hturn, hkeep]

/-- The operation adds one instruction. -/
structure Encodes (natural : Int64) (op : Operation) : Prop where
  turn : op.turn = 0
  added : ∀ indent, op.added natural indent =
    [.instruction op.mnemonic (op.suffix natural) op.operands]

/-- Instructions whose suffix is settled. -/
theorem performs_plain (hindent : 0 ≤ a.commentIndent) (h : Encodes a.natural op)
    (hwidths : op.widths a.natural = [])
    (hrespond : a.respond op = (Emit.plain op.mnemonic op.lead op.operands).run.run a) :
    a.Performs op := by
  have hsuffix : op.suffix a.natural = op.lead := by
    rw [suffix, hwidths]
    exact String.append_empty
  refine performs_of_appends hindent h.turn (by rw [widthError?, hwidths]; rfl) ?_
  rw [h.added, hsuffix, hrespond]
  rfl

/-- Instructions with one width. -/
theorem performs_sized (hindent : 0 ≤ a.commentIndent) (h : Encodes a.natural op)
    (hwidths : op.widths a.natural = [width])
    (hrespond : a.respond op = (Emit.sized width op.mnemonic op.operands op.lead).run.run a) :
    a.Performs op := by
  rw [Emit.sized] at hrespond
  cases hwidth : hasSuffix width with
  | false =>
    rw [suffixIn_eq_error _ hwidth] at hrespond
    exact .inl ⟨⟨width, op.mnemonic⟩, by simp [widthError?, hwidths, hwidth], hrespond⟩
  | true =>
    obtain ⟨s, hs, hsuffixIn⟩ := exists_suffixIn op.mnemonic hwidth
    have hsuffix : op.suffix a.natural = op.lead ++ s := by
      simp [suffix, hwidths, hs]
    refine performs_of_appends hindent h.turn (by simp [widthError?, hwidths, hwidth]) ?_
    rw [h.added, hsuffix, hrespond, hsuffixIn]
    rfl

/-- Extending moves have two widths; that of the source is looked at first. -/
theorem performs_extending (hindent : 0 ≤ a.commentIndent) (h : Encodes a.natural op)
    {sourceWidth destWidth : Int64} (hlead : op.lead = "")
    (hwidths : op.widths a.natural = [sourceWidth, destWidth])
    (hrespond : a.respond op =
      (Emit.extending sourceWidth destWidth op.mnemonic op.operands).run.run a) :
    a.Performs op := by
  rw [Emit.extending, dualSuffixIn] at hrespond
  cases hsource : hasSuffix sourceWidth with
  | false =>
    rw [suffixIn_eq_error _ hsource] at hrespond
    exact .inl ⟨⟨sourceWidth, op.mnemonic⟩, by simp [widthError?, hwidths, hsource], hrespond⟩
  | true =>
    obtain ⟨s, hs, hsuffixIn⟩ := exists_suffixIn op.mnemonic hsource
    rw [hsuffixIn] at hrespond
    cases hdest : hasSuffix destWidth with
    | false =>
      rw [suffixIn_eq_error _ hdest] at hrespond
      exact .inl ⟨⟨destWidth, op.mnemonic⟩, by simp [widthError?, hwidths, hsource, hdest],
        hrespond⟩
    | true =>
      obtain ⟨d, hd, hdestSuffixIn⟩ := exists_suffixIn op.mnemonic hdest
      have hsuffix : op.suffix a.natural = s ++ d := by
        simp [suffix, hlead, hwidths, hs, hd]
      refine performs_of_appends hindent h.turn
        (by simp [widthError?, hwidths, hsource, hdest]) ?_
      rw [h.added, hsuffix, hrespond, hdestSuffixIn]
      rfl

theorem performs_indentComment (hindent : 0 ≤ a.commentIndent) : a.Performs .indentComment := by
  have hmore : ((a.commentIndent + 1).toNat : Int) = a.commentIndent + 1 := by omega
  refine .inr ⟨rfl, ?_⟩
  rw [show turn .indentComment = 1 from rfl, hmore,
    show added a.natural a.commentIndent .indentComment = [] from rfl, List.append_nil]
  rfl

theorem performs_unindentComment (hindent : 0 ≤ a.commentIndent) :
    a.Performs .unindentComment := by
  refine .inr ⟨rfl, ?_⟩
  rw [show turn .unindentComment = -1 from rfl,
    show added a.natural a.commentIndent .unindentComment = [] from rfl, List.append_nil]
  show (Except.ok (), if 0 < a.commentIndent then
    { a with commentIndent := a.commentIndent - 1 } else a) = _
  by_cases hpos : 0 < a.commentIndent
  · have hless : ((a.commentIndent + -1).toNat : Int) = a.commentIndent - 1 := by omega
    rw [if_pos hpos, hless]
  · have hzero : ((a.commentIndent + -1).toNat : Int) = a.commentIndent := by omega
    rw [if_neg hpos, hzero]

/-- All that an operation can do.  It fails and changes nothing, or it appends. -/
theorem respond_cases (a : Emitter) (op : Operation) (hindent : 0 ≤ a.commentIndent) :
    a.Performs op := by
  cases op
  case jump _ _ | set _ _ => exact performs_plain hindent ⟨rfl, fun _ => rfl⟩ rfl rfl
  case callAbsolute _ => exact performs_plain hindent ⟨rfl, fun _ => rfl⟩ rfl rfl
  case ret | cltd => exact performs_plain hindent ⟨rfl, fun _ => rfl⟩ rfl rfl
  case movsbl _ _ | movswl _ _ | movzbl _ _ | movzwl _ _ =>
    exact performs_plain hindent ⟨rfl, fun _ => rfl⟩ rfl rfl
  case mov _ _ | lea _ _ | add _ _ | sub _ _ | imul _ _ | push _ | pop _ =>
    exact performs_sized hindent ⟨rfl, fun _ => rfl⟩ rfl rfl
  case movT _ _ _ | movzb _ _ _ | leaT _ _ _ | addT _ _ _ | subT _ _ _ | imulT _ _ _ =>
    exact performs_sized hindent ⟨rfl, fun _ => rfl⟩ rfl rfl
  case neg _ _ | inc _ _ | dec _ _ | div _ _ | idiv _ _ | not _ _ =>
    exact performs_sized hindent ⟨rfl, fun _ => rfl⟩ rfl rfl
  case and _ _ _ | or _ _ _ | xor _ _ _ | sar _ _ _ | sal _ _ _ | shr _ _ _ | cmp _ _ _
    | test _ _ _ =>
    exact performs_sized hindent ⟨rfl, fun _ => rfl⟩ rfl rfl
  case movsx _ _ _ _ | movzx _ _ _ _ =>
    exact performs_extending hindent ⟨rfl, fun _ => rfl⟩ rfl rfl rfl
  case append _ | comment _ | label _ | directive _ =>
    exact performs_of_appends hindent rfl rfl rfl
  case indentComment => exact performs_indentComment hindent
  case unindentComment => exact performs_unindentComment hindent

/-! ## Runs -/

/-- The emitter after some operations.  A run goes on after an operation that fails. -/
def run (natural : Int64) (ops : List Operation) : Emitter :=
  ops.foldl (fun a op => (a.respond op).2) { natural }

theorem run_concat (natural : Int64) (ops : List Operation) (op : Operation) :
    run natural (ops ++ [op]) = ((run natural ops).respond op).2 := by
  rw [run, List.foldl_append]
  rfl

theorem runningIndent_concat (ops : List Operation) (op : Operation) :
    runningIndent (ops ++ [op]) = ((runningIndent ops : Int) + op.turn).toNat := by
  rw [runningIndent, List.foldl_append]
  rfl

/-- An operation that fails is an instruction, and those do not turn the indent. -/
theorem turn_of_widthError? {natural : Int64} {e : WidthError}
    (h : op.widthError? natural = some e) : op.turn = 0 := by
  cases op
  case indentComment => cases h
  case unindentComment => cases h
  all_goals rfl

theorem natural_commentIndent_run (natural : Int64) (ops : List Operation) :
    (run natural ops).natural = natural ∧
      (run natural ops).commentIndent = runningIndent ops := by
  induction ops using List.reverseRecOn with
  | nil => exact ⟨rfl, rfl⟩
  | append_singleton ops op ih =>
    obtain ⟨hnatural, hindent⟩ := ih
    rw [run_concat, runningIndent_concat]
    rcases respond_cases (run natural ops) op (by omega) with ⟨e, he, hrespond⟩ | ⟨-, hrespond⟩
    · rw [hrespond, turn_of_widthError? he, Int.add_zero, Int.toNat_natCast]
      exact ⟨hnatural, hindent⟩
    · rw [hrespond, ← hindent]
      exact ⟨hnatural, rfl⟩

/-- The cases of an operation after a run. -/
theorem respond_run_cases (natural : Int64) (ops : List Operation) (op : Operation) :
    let a := run natural ops
    (∃ e, op.widthError? natural = some e ∧ a.respond op = (.error e, a)) ∨
    (op.widthError? natural = none ∧ a.respond op = (.ok (), { a with
      listing := a.listing ++ op.added natural a.commentIndent
      commentIndent := (a.commentIndent + op.turn).toNat })) := by
  obtain ⟨hnatural, hindent⟩ := natural_commentIndent_run natural ops
  have herror : op.widthError? (run natural ops).natural = op.widthError? natural := by
    rw [hnatural]
  have hadded (indent : Int) :
      op.added (run natural ops).natural indent = op.added natural indent := by
    rw [hnatural]
  have hcases := respond_cases (run natural ops) op (by omega)
  rwa [Performs, herror, hadded] at hcases

theorem isPrefix_listing_run (natural : Int64) (ops later : List Operation) :
    (run natural ops).listing <+: (run natural (ops ++ later)).listing := by
  induction later using List.reverseRecOn with
  | nil => exact ⟨[], by rw [List.append_nil, List.append_nil]⟩
  | append_singleton later op ih =>
    apply ih.trans
    rw [← List.append_assoc, run_concat]
    rcases respond_run_cases natural (ops ++ later) op with ⟨e, -, hrespond⟩ | ⟨-, hrespond⟩
    · exact ⟨[], by rw [hrespond, List.append_nil]⟩
    · exact ⟨_, by rw [hrespond]⟩

/-- The `i`-th line of the listing is a comment that was asked for with the text, at the
indent of that moment, or it was in a list that was appended. -/
def CommentComesFrom (natural : Int64) (ops : List Operation) (i : Nat) (text : String)
    (indent : Int) : Prop :=
  ∃ before op after, ops = before ++ op :: after ∧
    let a := run natural before
    (op = .comment text ∧ i = a.listing.length ∧ indent = a.commentIndent) ∨
      ∃ elements, op = .append elements ∧ a.listing.length ≤ i ∧
        elements[i - a.listing.length]? = some (.comment text indent)

/-- Only `comment` and `append` add comments. -/
theorem comment_added {natural : Int64} {current indent : Int} {i : Nat} {text : String}
    (h : (op.added natural current)[i]? = some (.comment text indent)) :
    (op = .comment text ∧ i = 0 ∧ indent = current) ∨
      ∃ elements, op = .append elements ∧ elements[i]? = some (.comment text indent) := by
  cases op
  case append elements => exact .inr ⟨elements, rfl, h⟩
  case comment text' =>
    rw [added, List.getElem?_singleton] at h
    by_cases hzero : i = 0
    · rw [if_pos hzero] at h
      cases h
      exact .inl ⟨rfl, hzero, rfl⟩
    · rw [if_neg hzero] at h
      cases h
  all_goals
    cases i with
    | zero => cases h
    | succ i => cases h

theorem commentComesFrom_of_getElem? {natural : Int64} {ops : List Operation} {i : Nat}
    {text : String} {indent : Int}
    (h : (run natural ops).listing[i]? = some (.comment text indent)) :
    CommentComesFrom natural ops i text indent := by
  induction ops using List.reverseRecOn with
  | nil => cases h
  | append_singleton ops op ih =>
    rw [run_concat] at h
    have hearlier (hold : (run natural ops).listing[i]? = some (.comment text indent)) :
        CommentComesFrom natural (ops ++ [op]) i text indent := by
      obtain ⟨before, op', after, rfl, horigin⟩ := ih hold
      exact ⟨before, op', after ++ [op], by simp, horigin⟩
    rcases respond_run_cases natural ops op with ⟨e, -, hrespond⟩ | ⟨-, hrespond⟩
    · rw [hrespond] at h
      exact hearlier h
    · rw [hrespond] at h
      by_cases hlt : i < (run natural ops).listing.length
      · rw [List.getElem?_append_left hlt] at h
        exact hearlier h
      · have hle : (run natural ops).listing.length ≤ i := by omega
        rw [List.getElem?_append_right hle] at h
        refine ⟨ops, op, [], rfl, ?_⟩
        rcases comment_added h with ⟨hop, hzero, hindent⟩ | ⟨elements, hop, helement⟩
        · exact .inl ⟨hop, by omega, hindent⟩
        · exact .inr ⟨elements, hop, hle, helement⟩

/-- What holds of an emitter after any run. -/
structure AppendOnly (natural : Int64) (ops : List Operation) : Prop where
  /-- An operation fails exactly when one of its widths cannot be encoded, with the mnemonic and
  the first of these widths. -/
  fails : ∀ op e, ((run natural ops).respond op).1 = .error e ↔ op.widthError? natural = some e
  /-- An operation that fails changes nothing. -/
  unchanged : ∀ op e, ((run natural ops).respond op).1 = .error e →
    ((run natural ops).respond op).2 = run natural ops
  /-- Any other appends its own lines: none for the two that turn the indent, the list of an
  `append`, and one line for all others. -/
  appends : ∀ op, ((run natural ops).respond op).1 = .ok () →
    ((run natural ops).respond op).2.listing =
      (run natural ops).listing ++ op.added natural (run natural ops).commentIndent
  /-- Lines stay where they are. -/
  stays : ∀ later, (run natural ops).listing <+: (run natural (ops ++ later)).listing
  /-- The comment indent is the running count of indents, and never negative. -/
  indent : 0 ≤ (run natural ops).commentIndent ∧
    (run natural ops).commentIndent = runningIndent ops
  /-- Every comment that was asked for has the indent that was in force when it was appended;
  those of an appended list come as they are. -/
  comments : ∀ i text indent, (run natural ops).listing[i]? = some (.comment text indent) →
    CommentComesFrom natural ops i text indent

theorem appendOnly_run (natural : Int64) (ops : List Operation) : AppendOnly natural ops := by
  have hindent := (natural_commentIndent_run natural ops).2
  refine ⟨fun op e => ?_, fun op e h => ?_, fun op h => ?_, isPrefix_listing_run natural ops,
    ⟨by omega, hindent⟩, fun i text indent => commentComesFrom_of_getElem?⟩
  all_goals
    rcases respond_run_cases natural ops op with ⟨e', he, hrespond⟩ | ⟨hnone, hrespond⟩
  · rw [hrespond, he]
    simp
  · rw [hrespond, hnone]
    simp
  · rw [hrespond]
  · rw [hrespond] at h
    cases h
  · rw [hrespond] at h
    cases h
  · rw [hrespond]

/-- Eight bytes have no suffix, so the push fails; the comments around it have their indents, and
unindenting stops at zero. -/
example :
    run 8 [.indentComment, .comment "a", .push ⟨"ebp"⟩, .unindentComment, .unindentComment,
      .comment "b", .indentComment] = ⟨8, [.comment "a" 1, .comment "b" 0], 1⟩ := by
  rfl

end Emitter

end Cflat.Asm
