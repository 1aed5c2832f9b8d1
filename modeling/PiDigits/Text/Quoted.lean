import PiDigits.Text.Formless

namespace PiDigits.Text

def visible (c : Char) : List Char :=
  match c with
  | '\x00' => ['\\', '0']
  | '\t' => ['\\', 't']
  | '\r' => ['\\', 'r']
  | '\n' => ['\\', 'n']
  | '\\' => ['\\', '\\']
  | '"' => ['\\', '"']
  | c =>
    if isFormless c then '\\' :: 'u' :: '\x7b' :: Nat.toDigits 16 c.toNat ++ ['\x7d'] else [c]

def quoted (s : String) : String := String.ofList ('"' :: s.toList.flatMap visible ++ ['"'])

end PiDigits.Text
