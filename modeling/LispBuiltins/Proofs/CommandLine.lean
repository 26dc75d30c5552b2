import Mathlib.Data.List.TakeWhile
import LispBuiltins.Proofs.ReportLine

namespace LispBuiltins

namespace Token

theorem ne_dash_of_isDigit (h : isDigit b) : b ≠ dash := by
  rintro rfl
  exact absurd h (by decide)

end Token

namespace Arguments

theorem texts_encode (ts : List String) : texts (ts.map Utf8.encode) = .ok ts := by
  have h : (ts.map Utf8.encode).mapM Utf8.decode? = some ts := by
    induction ts
    case nil          => rfl
    case cons t ts hi => simp [hi]
  simp only [texts, h]

namespace Reading

variable {switches : List Switch} {t u : String} {ts : List String}

end Reading

variable {w : String}

theorem parse_eq_finish (h : Reading.addTokens { } tokens = .ok r) : parse tokens = r.finish := by
  simp only [parse, h]
  rfl

-- The tokens that ask for a call of the builtin `w` with these values.
def ofCall (w : String) (vs : List Value) : List Token :=
  (w :: vs.map Literal.encode).map Utf8.encode

end Arguments

namespace Builtin

end Builtin

end LispBuiltins
