/-!
Terminal colours: a text between the sequence that turns an attribute on and the one that ends it.
-/

namespace SpriteMachine.Text

inductive Paint where
  | bold | red | green | yellow | cyan | brightBlack
  deriving DecidableEq, Repr

def Paint.start : Paint → String
  | .bold => "\x1b[1m"
  | .red => "\x1b[31m"
  | .green => "\x1b[32m"
  | .yellow => "\x1b[33m"
  | .cyan => "\x1b[36m"
  | .brightBlack => "\x1b[90m"

def Paint.stop : Paint → String
  | .bold => "\x1b[0m"
  | _ => "\x1b[39m"

def Paint.on (p : Paint) (s : String) : String :=
  p.start ++ s ++ p.stop

end SpriteMachine.Text
