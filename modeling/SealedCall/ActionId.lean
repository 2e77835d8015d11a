import SealedCall.Cipher.Sha1
import SealedCall.Failure
import SealedCall.Octets.Hex

/-! # Derived action ids

An action that is not given an id has one derived from where it is defined: the digest of a salt,
a module and a name with colons between them.
-/

namespace SealedCall.ActionId

def separator : Text := [CodePoint.ofChar ':']

/-- What is hashed for three texts. -/
def material (salt module name : Text) : Text := salt ++ separator ++ module ++ separator ++ name

/-- The octets of a text, or its misuse. -/
def octets (t : Text) : Except Failure Octets :=
  match Utf8.encode t with
  | .ok octets => .ok octets
  | .error fault => .error (.misuse (.unencodable fault))

/-- The forty hexadecimal digits derived from three texts. -/
def deriveText (salt module name : Text) : Except Failure Text :=
  match octets (material salt module name) with
  | .ok octets => .ok (Hex.encode (Sha1.digest octets))
  | .error failure => .error failure

/-- The id derived from three values, each in its own form. -/
def derive (salt module name : Value) : Except Failure Text :=
  if salt.isShowable && module.isShowable && name.isShowable then
    deriveText salt.plain module.plain name.plain
  else .error (.misuse .tooManyDigits)

end SealedCall.ActionId
