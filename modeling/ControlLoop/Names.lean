/-
Names for generated objects.

A name is readable parts joined by dashes and a short digest of the
exact list of parts, so that two lists which read alike still get
different names. Where a name must keep to the rules of the place it
is used in, only its readable portion is adjusted; the digest is
always that of the parts as given.
-/
import ControlLoop.Digest.Content

namespace ControlLoop.Names

/-- What a name may look like. -/
structure Constraints where
  /-- The most bytes it may have. -/
  maxLength : Nat
  /-- Dots are allowed beside lower-case letters, digits and dashes. -/
  allowDots : Bool
  /-- The first character must be a letter, not just a letter or digit. -/
  letterStart : Bool
  deriving DecidableEq, Repr

/-- A label of the domain name system. -/
def dnsLabel : Constraints := ⟨63, false, true⟩

/-- A dotted name below a domain. -/
def dnsSubdomain : Constraints := ⟨253, true, false⟩

/-- How many digits of the digest a name ends in. -/
def digestLength : Nat := 8

/-- What stands before the digest where a name was cut. -/
def cutMark : List Char := ['-', '-', '-']

/-- The byte string that stands for a list of parts. -/
def partsBytes (parts : List String) : List UInt8 := Digest.terminated parts

/-- The short digest of a list of parts. -/
def partsDigest (parts : List String) : List Char :=
  (Digest.ofBytes (partsBytes parts)).toList.take digestLength

/-- The parts joined by dashes. -/
def joined (parts : List String) : List Char := ("-".intercalate parts).toList

/-- The parts and their digest, joined by dashes; without parts the digest alone. -/
def join (parts : List String) : String :=
  if parts.isEmpty then String.ofList (partsDigest parts)
  else String.ofList (joined parts ++ '-' :: partsDigest parts)

-- ======================================== the readable portion

def isLowerLetter (c : Char) : Bool := 'a' ≤ c && c ≤ 'z'

def isDigitChar (c : Char) : Bool := '0' ≤ c && c ≤ '9'

/-- A character brought into the allowed set: upper case folded, anything else a dash. -/
def allowedChar (constraints : Constraints) (c : Char) : Char :=
  let c := c.toLower
  if isLowerLetter c || isDigitChar c || c = '-' then c
  else if c = '.' && constraints.allowDots then c
  else '-'

/-- The pieces between dots: one more than there are dots. -/
def splitDots : List Char → List (List Char)
  | [] => [[]]
  | '.' :: cs => [] :: splitDots cs
  | c :: cs =>
    match splitDots cs with
    | [] => [[c]]
    | label :: labels => (c :: label) :: labels

/-- Without the characters at the end that pass a test. -/
def trimEnd (p : Char → Bool) (cs : List Char) : List Char := (cs.reverse.dropWhile p).reverse

def isDash (c : Char) : Bool := c = '-'

/-- Drop the dashes next to a dot. -/
def trimAtDots (first : Bool) : List (List Char) → List (List Char)
  | [] => []
  | [label] => [if first then label else label.dropWhile isDash]
  | label :: labels =>
    trimEnd isDash (if first then label else label.dropWhile isDash) :: trimAtDots false labels

/-- Labels joined by dots. -/
def joinDots (labels : List (List Char)) : List Char := ['.'].intercalate labels

/-- No dashes next to dots and no empty labels. -/
def cleaned (cs : List Char) : List Char :=
  joinDots ((trimAtDots true (splitDots cs)).filter fun label => !label.isEmpty)

/-- Whether a name may begin so. -/
def startsWell (constraints : Constraints) : List Char → Bool
  | [] => false
  | c :: _ => if constraints.letterStart then isLowerLetter c else isLowerLetter c || isDigitChar c

/-- The readable portion of a name: the joined parts adjusted, with an `x` in front where they
would begin badly. -/
def readable (constraints : Constraints) (parts : List String) : List Char :=
  let cs := cleaned ((joined parts).map (allowedChar constraints))
  if startsWell constraints cs then cs else 'x' :: cs

def isDashOrDot (c : Char) : Bool := c = '-' || c = '.'

/-- A name that keeps to the constraints; a name that would be too long is cut before its
digest. -/
def joinWithin (constraints : Constraints) (parts : List String) : String :=
  let digest := partsDigest parts
  if parts.isEmpty then String.ofList digest
  else
    let text := readable constraints parts
    let name := text ++ '-' :: digest
    if name.length ≤ constraints.maxLength then String.ofList name
    else
      let keep := constraints.maxLength - (digest.length + cutMark.length)
      String.ofList (trimEnd isDashOrDot (text.take keep) ++ cutMark ++ digest)

end ControlLoop.Names
