import LispBuiltins.Command.Run
import LispBuiltins.Proofs.Calls

namespace LispBuiltins

open Printing

theorem Printing.Sends.forM {f : ι → Printing Unit} {out : ι → List UInt8}
    (h : ∀ i, Sends (f i) (out i) ()) : (is : List ι) → Sends (is.forM f) (is.flatMap out) ()
  | []      => .pure ()
  | i :: is => by
    rw [List.flatMap_cons, List.forM_eq_forM, List.forM_cons]
    exact (h i).bind (forM h is)

namespace Builtin

-- What is listed, in bytes.
def listing (p : Palette) : List UInt8 :=
  all.flatMap fun b => (b.entry p).flatMap Utf8.encode

theorem listing_ne_nil (p : Palette) : listing p ≠ [] := by
  intro h
  have h := List.flatMap_eq_nil_iff.mp h plus plus.mem_all
  exact nomatch List.flatMap_eq_nil_iff.mp h "/" (by simp [entry])

theorem prints_printAll (p : Palette) : Prints (printAll p) (listing p) () := by
  have hs := Sends.forM (fun b : Builtin => Sends.forM Sends.write (b.entry p)) all
  exact hs.flush (listing_ne_nil p)

end Builtin

namespace Report

variable {name : String} {args : List Value}

theorem ofCall_eq (name : String) (args : List Value) :
    ofCall name args = {
      builtin := name
      args
      output := Utf8.decodeLossy ((Builtin.callNamed name args).run Sink.unbounded).snd.bytes
      outcome := Builtin.outcomeNamed name args } :=
  rfl

-- The report of a call that prints has the line in it.
theorem ofCall_print (h : Builtin.printedNamed? name args = some v) :
    ofCall name args = { builtin := name, args, output := v.render ++ "\n", outcome := .ok v } := by
  simp only [ofCall_eq, Builtin.outcomeNamed, Builtin.callNamed_eq_print h,
    v.prints_print.run_unbounded, Value.line, Utf8.decodeLossy_encode]

theorem ofCall_silent (h : Builtin.printedNamed? name args = none) :
    ofCall name args =
      { builtin := name, args, output := "", outcome := Builtin.outcomeNamed name args } := by
  have he := Utf8.decodeLossy_encode ""
  simp only [Utf8.encode_empty] at he
  simp only [ofCall_eq, (Builtin.silent_callNamed h).run_unbounded, he]

end Report

namespace Invocation

variable {name : String} {args : List Value} {v : Value}

theorem prints_printResult (v : Value) : Prints (printResult v) v.line () :=
  v.line_eq ▸ (Sends.write _).bind_prints ((Sends.write "\n").flush (nomatch ·))

def reportLine (name : String) (args : List Value) : List UInt8 :=
  Utf8.encode ((Report.ofCall name args).json.render ++ "\n")

theorem prints_answerJson (name : String) (args : List Value) :
    Prints (answerJson name args) (reportLine name args)
      { code := if (Builtin.outcomeNamed name args).isOk then 0 else 1 } := by
  have hs := Sends.forM (fun piece => Sends.write (String.ofList piece))
    (Report.ofCall name args).json.pieces
  simp only [reportLine, Utf8.encode_append, Json.render, Utf8.encode_ofList_flatten]
  refine hs.bind_prints ?_
  rw [← bind_assoc]
  exact (Sends.write "\n").flush (nomatch ·) |>.bind_pure _

theorem answerPlain_eq (args : List Value) (h : Builtin.ofName? name = some b) :
    answerPlain name args =
      b.call args >>= fun v =>
        if b = .println then pure .success else printResult v >>= fun _ => pure .success :=
  Builtin.lookup_bind h _

theorem prints_answerPlain (h : Builtin.outcomeNamed name args = .ok v) :
    Prints (answerPlain name args) v.line .success := by
  cases hb : Builtin.ofName? name
  case none => cases Builtin.outcomeNamed_unknown args hb ▸ h
  case some b =>
    have h := Builtin.outcomeNamed_eq_outcome args hb ▸ h
    rw [answerPlain_eq args hb]
    cases hp : b.printed? args
    case none =>
      have hs : Silent (b.call args : Printing Value) (.ok v) := h ▸ Builtin.silent_call hp
      simp only [hs.bind_ok, if_neg <| Builtin.ne_println hp h]
      exact (prints_printResult v).bind_pure _
    case some =>
      cases (Builtin.outcome_eq_ok hp).symm.trans h
      have hb := (Builtin.printed?_eq_some_iff.mp hp).left
      simp only [Builtin.call_eq_print hp, if_pos hb]
      exact v.prints_print.bind_pure _

theorem silent_answerPlain (h : Builtin.outcomeNamed name args = .error e) :
    Silent (answerPlain name args) (.error e) := by
  cases hb : Builtin.ofName? name
  case none =>
    cases Builtin.outcomeNamed_unknown args hb ▸ h
    exact Builtin.silent_lookup_bind hb _
  case some b =>
    have h := Builtin.outcomeNamed_eq_outcome args hb ▸ h
    rw [answerPlain_eq args hb]
    cases hp : b.printed? args
    case none => exact (h ▸ Builtin.silent_call hp).bind_error _
    case some => cases (Builtin.outcome_eq_ok hp).symm.trans h

theorem conduct_answerPlain (name : String) (args : List Value) :
    Conduct (answerPlain name args) := by
  cases h : Builtin.outcomeNamed name args
  case error => exact .silent <| silent_answerPlain h
  case ok    => exact .prints <| prints_answerPlain h

theorem conduct_answer (p : Palette) (i : Invocation) : Conduct (i.answer p) := by
  unfold answer
  split
  case isTrue => exact .prints <| (Builtin.prints_printAll p).bind_pure _
  case isFalse =>
    split
    case h_1 => exact .silent <| .pure _
    case h_2 name _ =>
      split
      case h_1 => exact .silent <| .pure _
      case h_2 args _ =>
        split
        case isTrue  => exact .prints <| prints_answerJson name args
        case isFalse => exact conduct_answerPlain name args

end Invocation

-- How the program ends after an answer.
def Exit.ofResult (p : Palette) : Except CallError Exit → Exit
  | .ok exit => exit
  | .error e => .failure p e.diagnostic

-- Where nothing hinders it from printing, the program prints `out` and ends with `exit`.
structure Ends (program : StateM Sink Exit) (exit : Exit) (out : List UInt8) : Prop where
  exit  : (program.run Sink.unbounded).fst = exit
  bytes : (program.run Sink.unbounded).snd.bytes = out

theorem Ends.run_eq {exit : Exit} (h : Ends program exit out) :
    ∃ sink, program.run Sink.unbounded = (exit, sink) ∧ sink.bytes = out :=
  ⟨_, Prod.ext h.exit rfl, h.bytes⟩

namespace Invocation

variable {p : Palette} {i : Invocation}

theorem run_eq (p : Palette) (i : Invocation) (s : Sink) :
    (i.run p).run s =
      (.ofResult p ((i.answer p).run s).fst, ((i.answer p).run s).snd) := by
  rcases h : (i.answer p).run s with ⟨r, s'⟩
  simp only [run, StateT.run, bind, StateT.bind, h]
  cases r <;> rfl

theorem ends_of_prints (h : Prints (i.answer p) out exit) : Ends (i.run p) exit out where
  exit  := by simp only [run_eq, h.run_unbounded.left]; rfl
  bytes := by simp only [run_eq, h.run_unbounded.right]

theorem ends_of_silent (h : Silent (i.answer p) r) : Ends (i.run p) (.ofResult p r) [] where
  exit  := by simp only [run_eq, h.run_unbounded.left]
  bytes := by simp only [run_eq, h.run_unbounded.right]

theorem ends_undecoded (hl : i.list = false) (hb : i.builtin = some name)
    (hd : Literal.decodeAll i.args = .error e) : Ends (i.run p) (.failure p e.diagnostic) [] := by
  refine ends_of_silent (r := .ok _) ?_
  simp only [answer, hl, hb, hd]
  exact .pure _

-- What is asked for is a call, and the tokens stand for `vs`.
structure AsksFor (i : Invocation) (name : String) (vs : List Value) : Prop where
  list    : i.list = false
  builtin : i.builtin = some name
  decoded : Literal.decodeAll i.args = .ok vs

namespace AsksFor

variable {vs : List Value}

theorem answer_eq (h : i.AsksFor name vs) :
    i.answer p = if i.json then answerJson name vs else answerPlain name vs := by
  simp [answer, h.list, h.builtin, h.decoded]

theorem ends_json (h : i.AsksFor name vs) (hj : i.json = true) :
    Ends (i.run p) { code := if (Builtin.outcomeNamed name vs).isOk then 0 else 1 }
      (reportLine name vs) := by
  apply ends_of_prints
  simp only [h.answer_eq, if_pos hj]
  exact prints_answerJson name vs

theorem ends_plain_ok (h : i.AsksFor name vs) (hj : i.json = false)
    (ho : Builtin.outcomeNamed name vs = .ok v) : Ends (i.run p) .success v.line := by
  apply ends_of_prints
  simp only [h.answer_eq, hj]
  exact prints_answerPlain ho

theorem ends_plain_error (h : i.AsksFor name vs) (hj : i.json = false)
    (ho : Builtin.outcomeNamed name vs = .error e) :
    Ends (i.run p) (.failure p e.diagnostic) [] := by
  refine ends_of_silent (r := .error e) ?_
  simp only [h.answer_eq, hj]
  exact silent_answerPlain ho

end AsksFor
end Invocation
end LispBuiltins
