import LispBuiltins.Proofs.Failures
import LispBuiltins.Proofs.Literals
import LispBuiltins.Proofs.Stripping

namespace LispBuiltins

open Printing Code

-- The texts that an error was given.
def CallError.texts : CallError → List String
  | wrongKind operation ..          => [operation]
  | wrongArity builtin ..           => [builtin]
  | unknownBuiltin name             => [name]
  | output text                     => [text]
  | divisionByZero _ | notBoolean _ => []

namespace Builtin

variable {b : Builtin} {vs : List Value} {e : CallError}

-- An error is given no text but the name of the builtin.
theorem Refuses.texts_subset (h : b.Refuses vs e) : e.texts ⊆ [b.name] := by
  cases h
  case arity | kind    => exact List.Subset.refl _
  case divisor | truth => exact List.nil_subset _

theorem texts_outcome (h : b.outcome vs = .error e) : e.texts ⊆ [b.name] := by
  cases hp : b.printed? vs
  case none => exact ((outcome_eq_error_iff hp).mp h).texts_subset
  case some => cases (outcome_eq_ok hp).symm.trans h

theorem texts_outcomeNamed {name : String} (h : outcomeNamed name vs = .error e) :
    ∀ t ∈ e.texts, t = name ∨ ∃ b, t = Builtin.name b := by
  intro t ht
  cases hb : ofName? name
  case none =>
    cases outcomeNamed_unknown vs hb ▸ h
    exact .inl <| List.mem_singleton.mp ht
  case some b =>
    have ho := outcomeNamed_eq_outcome vs hb ▸ h
    exact .inr ⟨b, List.mem_singleton.mp <| texts_outcome ho ht⟩

theorem clean_name (b : Builtin) : Clean b.name := by
  cases b <;> exact clean_ofList

end Builtin

theorem clean_repr_nat (n : Nat) : Clean n.repr := by
  rw [Nat.repr_eq_ofList_toDigits]
  exact clean_ofList fun h => absurd (Literal.isDigit_of_mem_toDigits h) (by decide)

theorem clean_repr : (n : Int) → Clean n.repr
  | .ofNat n   => clean_repr_nat n
  | .negSucc n => clean_append.mpr ⟨clean_ofList, clean_repr_nat (n + 1)⟩

theorem Kind.clean_name (k : Kind) : Clean k.name := by
  cases k <;> exact clean_ofList

theorem Diagnostic.clean_render {d : Diagnostic} (hk : Clean d.kind) (hm : Clean d.message)
    (ha : ∀ a ∈ d.advice, Clean a.help ∧ Clean a.hint) : Clean (d.render .uncolored) := by
  have hn : Clean "\n" := separator_newline.clean
  have hr : Clean ((d.advice.map (Advice.render .uncolored)).getD "") := by
    cases h : d.advice
    case none   => exact clean_ofList nofun
    case some a =>
      have ⟨hh, hi⟩ := ha a h
      have hs : Clean "    " := clean_ofList
      simp [Advice.render, hh, hi, hn, hs]
  simp [render, hk, hm, hr, hn, separator_colon.clean]

namespace CallError

variable {e : CallError}

theorem clean_name (e : CallError) : Clean e.name := by
  cases e <;> exact clean_ofList

theorem clean_message (h : ∀ t ∈ e.texts, Clean t) : Clean e.message := by
  unfold message
  split <;> simp only [texts, List.forall_mem_singleton] at h <;>
    simp only [clean_append, clean_repr, clean_repr_nat, Kind.clean_name, h, and_true] <;>
    and_intros <;> exact clean_ofList

theorem clean_advice (h : ∀ t ∈ e.texts, Clean t) :
    Clean e.advice.help ∧ Clean e.advice.hint := by
  have hb : Clean (", ".intercalate (Builtin.all.map Builtin.name)) := by decide
  unfold advice
  split <;> simp only [texts, List.forall_mem_singleton] at h <;>
    simp only [clean_append, clean_repr_nat, h, hb, and_true] <;>
    and_intros <;> exact clean_ofList

theorem clean_diagnostic (h : ∀ t ∈ e.texts, Clean t) :
    Clean (e.diagnostic.render .uncolored) := by
  refine Diagnostic.clean_render e.clean_name (clean_message h) fun a ha => ?_
  cases ha
  exact clean_advice h

end CallError

-- How a run ends, but for the colours.
structure Ending where
  code : Nat
  diagnostic : Option Diagnostic := none

namespace Ending

def exit (p : Palette) (e : Ending) : Exit where
  code   := e.code
  stderr := (e.diagnostic.map (Diagnostic.render p)).getD ""

theorem strip_exit (p p' : Palette) (e : Ending) :
    strip (Utf8.encode (e.exit p).stderr) = strip (Utf8.encode (e.exit p').stderr) := by
  unfold exit
  cases e.diagnostic
  case none   => rfl
  case some d => exact d.strip_render p p'

theorem strip_exit_clean {e : Ending} (h : ∀ d ∈ e.diagnostic, Clean (d.render .uncolored))
    (p : Palette) :
    strip (Utf8.encode (e.exit p).stderr) = Utf8.encode (e.exit .uncolored).stderr := by
  refine (e.strip_exit p .uncolored).trans <| Clean.strip_eq ?_
  unfold exit
  cases hd : e.diagnostic
  case none   => exact clean_ofList nofun
  case some d => exact h d hd

end Ending

namespace Invocation

variable {i : Invocation} {d : Device} {dg : Diagnostic}

-- What can be said of a run over `d` that goes wrong.
inductive Meets (i : Invocation) (d : Device) : Diagnostic → Prop
  | noBuiltin : Meets i d noBuiltin
  | literal (h : Literal.decodeAll i.args = .error e) : Meets i d e.diagnostic
  | call (hb : i.builtin = some name) (h : Builtin.outcomeNamed name vs = .error e) :
    Meets i d e.diagnostic
  | output (sent : List UInt8) : Meets i d (CallError.output (d.fault sent).text).diagnostic

theorem Meets.clean (h : i.Meets d dg) (hb : ∀ name ∈ i.builtin, Clean name)
    (ha : ∀ token ∈ i.args, Clean token) (hd : Clean d.message) : Clean (dg.render .uncolored) := by
  cases h
  case noBuiltin =>
    exact Diagnostic.clean_render clean_ofList clean_ofList nofun
  case literal e h =>
    have ⟨_, token, _, hm, _, ht⟩ := Literal.decodeAll_error h
    have hc : Clean token := ha token <| by simp [hm]
    rw [Literal.decode_error ht]
    exact Diagnostic.clean_render clean_ofList (clean_append.mpr ⟨clean_ofList, hc⟩) nofun
  case call name vs e hn h =>
    refine CallError.clean_diagnostic fun t ht => ?_
    cases Builtin.texts_outcomeNamed h t ht
    case inl ht => exact ht ▸ hb name hn
    case inr ht => exact ht.choose_spec ▸ ht.choose.clean_name
  case output sent =>
    refine CallError.clean_diagnostic fun t ht => ?_
    rw [List.mem_singleton.mp ht]
    unfold Device.fault
    split
    case isTrue  => exact clean_ofList
    case isFalse => exact hd

theorem exists_ending {r : Except CallError Exit} (ho : ∀ exit, r = .ok exit → exit.stderr = "")
    (he : ∀ e, r = .error e → i.Meets d e.diagnostic) :
    ∃ ending : Ending, (∀ dg ∈ ending.diagnostic, i.Meets d dg) ∧
      ∀ p, Exit.ofResult p r = ending.exit p := by
  cases r
  case ok exit =>
    refine ⟨{ code := exit.code }, nofun, fun p => ?_⟩
    have ho := ho exit rfl
    cases exit
    cases ho
    rfl
  case error e =>
    refine ⟨{ code := 1, diagnostic := e.diagnostic }, fun dg h => ?_, fun p => rfl⟩
    cases h
    exact he e rfl

-- Whatever the colours are, the run over `d` ends in the same way and prints the same.
def EndsAlike (i : Invocation) (d : Device) : Prop :=
  ∃ (ending : Ending) (sink : Sink), (∀ dg ∈ ending.diagnostic, i.Meets d dg) ∧
    ∀ p, (i.run p).run d.sink = (ending.exit p, sink)

theorem endsAlike_of_answer {m : Printing Exit} (hm : ∀ p, i.answer p = m)
    (ho : ∀ exit, (m.run d.sink).fst = .ok exit → exit.stderr = "")
    (he : ∀ e, (m.run d.sink).fst = .error e → i.Meets d e.diagnostic) : i.EndsAlike d := by
  have ⟨ending, hd, hr⟩ := exists_ending ho he
  exact ⟨ending, (m.run d.sink).snd, hd, fun p => by simp only [run_eq, hm, hr]⟩

theorem endsAlike_of_prints {m : Printing Exit} (hm : ∀ p, i.answer p = m)
    (h : Prints m out exit) (hs : exit.stderr = "") : i.EndsAlike d := by
  have hr := h.result <| Sink.received_sink d
  apply endsAlike_of_answer hm <;> intro _ h <;> rw [hr] at h <;> split at h <;> cases h
  case ho => exact hs
  case he => exact .output _

theorem endsAlike_call (h : i.AsksFor name vs) : i.EndsAlike d := by
  have hm (p : Palette) := h.answer_eq (p := p)
  cases hj : i.json <;> simp only [hj, if_true, if_false, Bool.false_eq_true] at hm
  case true => exact endsAlike_of_prints hm (prints_answerJson name vs) rfl
  case false =>
    cases ho : Builtin.outcomeNamed name vs
    case ok => exact endsAlike_of_prints hm (prints_answerPlain ho) rfl
    case error =>
      have hs := silent_answerPlain ho d.sink
      apply endsAlike_of_answer hm <;> intro _ h <;> rw [hs] at h <;> cases h
      exact .call h.builtin ho

-- Where nothing is listed, colours are in the diagnostic only.
theorem endsAlike (hl : i.list = false) (d : Device) : i.EndsAlike d := by
  cases hb : i.builtin
  case none =>
    refine ⟨{ code := 2, diagnostic := noBuiltin }, d.sink, fun dg h => ?_, fun p => ?_⟩
    · cases h
      exact .noBuiltin
    · simp only [run_eq, answer, hl, hb]
      rfl
  case some name =>
    cases hd : Literal.decodeAll i.args
    case ok vs => exact endsAlike_call ⟨hl, hb, hd⟩
    case error e =>
      refine ⟨{ code := 1, diagnostic := e.diagnostic }, d.sink, fun dg h => ?_, fun p => ?_⟩
      · cases h
        exact .literal hd
      · simp only [run_eq, answer, hl, hb, hd]
        rfl

-- What comes of listing where there is room for everything.
def listed (d : Device) : Except CallError Exit :=
  if d.flushFails = false then .ok .success else .error (.output (d.fault []).text)

theorem run_listed (hl : i.list = true) (hc : d.capacity = none) (p : Palette) :
    ∃ sink, (i.run p).run d.sink = (.ofResult p (listed d), sink) ∧
      sink.bytes = Builtin.listing p ∧ sink.flushes = 1 := by
  have hf (bytes : List UInt8) : d.Fits bytes := by simp [Device.Fits, hc]
  have h : Prints (i.answer p) (Builtin.listing p) .success := by
    simp only [answer, hl]
    exact (Builtin.prints_printAll p).bind_pure _
  have hd := Sink.received_sink d
  have hr := h.received hd
  have hv : ((i.answer p).run d.sink).fst = listed d := by
    simp only [h.result hd, listed, Device.fault, hf, true_and, not_true_eq_false, false_and]
  refine ⟨_, (run_eq p i d.sink).trans <| congrArg (Exit.ofResult p · , _) hv, ?_, ?_⟩
  · simpa only [(hf _).kept_eq, List.nil_append] using hr.bytes
  · simpa only [hf, if_true] using hr.flushes

theorem exists_ending_listed (i : Invocation) (d : Device) :
    ∃ ending : Ending, (∀ dg ∈ ending.diagnostic, i.Meets d dg) ∧
      ∀ p, Exit.ofResult p (listed d) = ending.exit p := by
  apply exists_ending <;> intro _ h <;> unfold listed at h <;> split at h <;> cases h
  case ho => rfl
  case he => exact .output []

-- Colours change nothing but the codes, if nothing is to be listed or there is room for all of it.
theorem run_equal_up_to_codes (i : Invocation) (d : Device)
    (h : i.list = false ∨ d.capacity = none) :
    let colored   := (i.run { color := true }).run d.sink
    let uncolored := (i.run { color := false }).run d.sink
    colored.fst.code = uncolored.fst.code ∧
    colored.snd.flushes = uncolored.snd.flushes ∧
    strip (Utf8.encode colored.fst.stderr) = strip (Utf8.encode uncolored.fst.stderr) ∧
    (i.list = false → colored.snd.bytes = uncolored.snd.bytes) ∧
    (i.list = true → strip colored.snd.bytes = uncolored.snd.bytes) ∧
    ((∀ name ∈ i.builtin, Clean name) → (∀ token ∈ i.args, Clean token) → Clean d.message →
      strip (Utf8.encode colored.fst.stderr) = Utf8.encode uncolored.fst.stderr) := by
  intro colored uncolored
  cases hl : i.list
  case false =>
    have ⟨ending, sink, hm, hr⟩ := endsAlike hl d
    have hc : colored = (_, sink) := hr _
    have hu : uncolored = (_, sink) := hr _
    rw [hc, hu]
    refine ⟨rfl, rfl, ending.strip_exit .., fun _ => rfl, nofun, fun hn ha hd => ?_⟩
    exact Ending.strip_exit_clean (fun dg h => (hm dg h).clean hn ha hd) _
  case true =>
    have hroom := h.resolve_left (by simp [hl])
    have ⟨ending, hm, he⟩ := exists_ending_listed i d
    have ⟨sink, hc, hb, hf⟩ := run_listed hl hroom { color := true }
    have ⟨sink', hu, hb', hf'⟩ := run_listed hl hroom { color := false }
    rw [he] at hc hu
    have hc : colored = (_, sink) := hc
    have hu : uncolored = (_, sink') := hu
    rw [hc, hu]
    refine ⟨rfl, hf.trans hf'.symm, ending.strip_exit .., nofun, fun _ => ?_, fun hn ha hd => ?_⟩
    · exact (congrArg strip hb).trans <| (Builtin.strip_listing _).trans hb'.symm
    · exact Ending.strip_exit_clean (fun dg h => (hm dg h).clean hn ha hd) _

-- A name that is itself a code around a code, and a device that takes nothing.
theorem run_equal_up_to_codes_nested :
    let i : Invocation := { builtin := "\x1b[3\x1b[31m1m" }
    let d : Device     := { limit := some 0 }
    (i.list = false ∨ d.capacity = none) ∧
    strip (Utf8.encode ((i.run { color := true }).run d.sink).fst.stderr) =
      strip (Utf8.encode ((i.run { color := false }).run d.sink).fst.stderr) := by
  intro i d
  have h : i.list = false ∨ d.capacity = none := .inl rfl
  exact ⟨h, (run_equal_up_to_codes i d h).right.right.left⟩

end Invocation
end LispBuiltins
