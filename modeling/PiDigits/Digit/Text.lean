import PiDigits.Digit
import PiDigits.Json.Value

namespace PiDigits.Digit

def read : Json.Reader Digit := return ⟨(← Json.readInteger 0 255 "u8").toNat.toUInt8⟩

def ofJson (text : String) : Except Json.ReadError Digit := Json.readAll read text

def json (d : Digit) : String := toString d.value.toNat

end PiDigits.Digit
