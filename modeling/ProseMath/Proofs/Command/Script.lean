import Mathlib.Tactic.Common
import ProseMath.Command.Script
import ProseMath.Proofs.Document.Composition
import ProseMath.Proofs.Host

/-!
# Fragments and scripts agree

A fragment is read with a newline behind it, a script as it is. That newline changes nothing, so a
script is written as the preamble, the fragment and the end of the document.

* `fragment_cases`: a fragment is the body of what is read, or the error of reading.
* `run_runScript`: what a script does with its input.
* `runScript_agrees_with_fragment`: a script writes what the fragment is, or fails as it does.
-/

namespace ProseMath.Command

/-- A fragment fails only where it cannot be read. -/
theorem fragment_cases (t : Text) :
    (∃ e, Document.parse t = .error e ∧ fragment t = .error (.of (.source e))) ∨
      ∃ d s, Document.parse t = .ok d ∧ Latex.body d = .ok s ∧ fragment t = .ok s := by
  rw [fragment, Document.parse_append_newline]
  cases hParse : Document.parse t with
  | error e => exact Or.inl ⟨e, rfl, rfl⟩
  | ok d =>
    obtain ⟨s, hs⟩ := Latex.exists_body hParse
    refine Or.inr ⟨d, s, rfl, hs, ?_⟩
    dsimp only
    rw [hs]

/-- What a script does, in terms of the fragment. -/
theorem run_runScript {o : Latex.Options} {content : ByteArray} {w : World}
    (hInput : w.input = .ok content) :
    (runScript o : Action (StateM World) Unit).run.run w =
      match fragment (Text.decode content) with
      | .error f => (.error (f.within "could not parse input".toList), w)
      | .ok s =>
        if w.output.remaining = some 0 then (.error (.of .outputClosed), w)
        else (.ok (), w.printed (o.preamble.flatten ++ s ++ Latex.documentEnd)) := by
  have hRead : (Host.input : StateM World _).run w = (.ok content, w) := by
    rw [← hInput]
    rfl
  rw [runScript, Action.run_bind, Action.run_liftM, hRead]
  dsimp only
  rw [Action.run_bind, parseSource, Action.run_ofExcept]
  rcases fragment_cases (Text.decode content) with
    ⟨e, hParse, hFragment⟩ | ⟨d, s, hParse, hBody, hFragment⟩
  · rw [hParse, hFragment]
    rfl
  · rw [hParse, hFragment]
    dsimp only [Except.mapError]
    rw [Action.run_bind, Action.run_ofExcept, Latex.document_of_body o hBody]
    dsimp only [Except.mapError]
    rw [Action.run_bind, Action.run_liftM, World.run_print]
    by_cases hClosed : w.output.remaining = some 0
    · rw [if_pos hClosed, if_pos hClosed]
      rfl
    · rw [if_neg hClosed, if_neg hClosed]
      rfl

theorem parse_decode_equation : Document.parse (Text.decode "y=1".toUTF8) =
    .ok ⟨[.equation ⟨.identifier ['y'], .identifier ['1']⟩]⟩ := by
  have hText : Text.decode "y=1".toUTF8 = "y=1".toList := by decide +kernel
  rw [hText, Document.parse_eq_map_readLines]
  cbv

theorem parse_decode_close :
    Document.parse (Text.decode ")".toUTF8) = .error ⟨.unexpectedClose, some 0⟩ := by
  have hText : Text.decode ")".toUTF8 = [')'] := by decide +kernel
  rw [hText, Document.parse_eq_map_readLines]
  cbv

theorem fragment_equation :
    fragment (Text.decode "y=1".toUTF8) = .ok "\\[y = 1\\]\n\n".toList := by
  have hBody : Latex.body ⟨[.equation ⟨.identifier ['y'], .identifier ['1']⟩]⟩ =
      .ok "\\[y = 1\\]\n\n".toList := by decide +kernel
  rw [fragment, Document.parse_append_newline, parse_decode_equation]
  dsimp only
  rw [hBody]

theorem fragment_close :
    fragment (Text.decode ")".toUTF8) = .error ⟨[], .source ⟨.unexpectedClose, some 0⟩⟩ := by
  rw [fragment, Document.parse_append_newline, parse_decode_close]
  rfl

/-- A world with some input and an output that takes one write. -/
def scriptWorld (input : ByteArray) : World := ⟨.empty, [], .ok input, ⟨[], some 1⟩, [], []⟩

/-- Where the fragment can be converted, a script writes the preamble, the fragment and the end of
the document in one write; otherwise it writes nothing and fails with the same error. -/
theorem runScript_agrees_with_fragment (o : Latex.Options) (content : ByteArray) (w : World)
    (hInput : w.input = .ok content) :
    (∀ s, fragment (Text.decode content) = .ok s →
      (runScript o : Action (StateM World) Unit).run.run w =
        if w.output.remaining = some 0 then (.error (.of .outputClosed), w)
        else (.ok (), w.printed (o.preamble.flatten ++ s ++ Latex.documentEnd))) ∧
    ∀ f, fragment (Text.decode content) = .error f → ∃ e : SyntaxError,
      f = ⟨[], .source e⟩ ∧
      (runScript o : Action (StateM World) Unit).run.run w =
        (.error ⟨["could not parse input".toList], .source e⟩, w) ∧
      Failure.message ⟨["could not parse input".toList], .source e⟩ =
        "could not parse input: ".toList ++ f.message := by
  rw [run_runScript hInput]
  constructor
  · intro s hs
    rw [hs]
  · intro f hf
    rcases fragment_cases (Text.decode content) with ⟨e, _, hError⟩ | ⟨_, _, _, _, hOk⟩
    · rw [hError] at hf
      cases hf
      rw [hError]
      exact ⟨e, rfl, rfl, rfl⟩
    · rw [hOk] at hf
      cases hf

/-- An equation without a newline behind it is written in one write, and of `)` nothing is. -/
theorem runScript_agrees_with_fragment_equation :
    fragment (Text.decode "y=1".toUTF8) = .ok "\\[y = 1\\]\n\n".toList ∧
    (runScript .default : Action (StateM World) Unit).run.run (scriptWorld "y=1".toUTF8) =
      (.ok (), (scriptWorld "y=1".toUTF8).printed (Latex.Options.default.preamble.flatten ++
        "\\[y = 1\\]\n\n".toList ++ Latex.documentEnd)) ∧
    (runScript .default : Action (StateM World) Unit).run.run (scriptWorld ")".toUTF8) =
      (.error ⟨["could not parse input".toList], .source ⟨.unexpectedClose, some 0⟩⟩,
        scriptWorld ")".toUTF8) := by
  obtain ⟨e, he, hRun, _⟩ :=
    (runScript_agrees_with_fragment .default _ (scriptWorld ")".toUTF8) rfl).2 _ fragment_close
  cases he
  exact ⟨fragment_equation, (runScript_agrees_with_fragment .default _ _ rfl).1 _ fragment_equation,
    hRun⟩

end ProseMath.Command
