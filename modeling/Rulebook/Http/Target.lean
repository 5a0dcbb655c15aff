import Rulebook.Uuid

/-!
Request targets: a path, then a question mark and a query, then a number sign and a fragment, which
is not sent. In path and query a percent sign with two hexadecimal digits stands for a byte, and the
bytes are read as UTF-8.
-/
namespace Rulebook.Http

/-- The path and the query that a target spells. -/
structure Target where
  path : String
  query : List (String × String)
  deriving DecidableEq, Repr, Inhabited

namespace Target

/-- The bytes that characters stand for. -/
def unescape : List Char → List UInt8
  | [] => []
  | '%' :: a :: b :: rest =>
    match Uuid.ofHexChars? [a, b] with
    | some n => UInt8.ofNat n :: unescape rest
    | none => '%'.toUInt8 :: unescape (a :: b :: rest)
  | c :: rest => (String.singleton c).toUTF8.toList ++ unescape rest

/-- The character that bytes make up. -/
def char? (bytes : List UInt8) : Option Char :=
  match (String.fromUTF8? ⟨bytes.toArray⟩).map String.toList with
  | some [c] => some c
  | _ => none

/-- The characters of bytes; a byte that belongs to none is replaced. -/
def charsOf (bytes : List UInt8) : List Char :=
  match bytes with
  | [] => []
  | b :: rest =>
    match [0, 1, 2, 3].findSome? fun more =>
      (char? (b :: rest.take more)).map fun c => (c, more) with
    | some (c, more) => c :: charsOf (rest.drop more)
    | none => '\uFFFD' :: charsOf rest
  termination_by bytes.length
  decreasing_by all_goals simp only [List.length_drop, List.length_cons]; omega

def decode (s : String) : String := String.ofList (charsOf (unescape s.toList))

/-- A name with its value; without a sign between them the value is empty. -/
def parameter (s : String) : String × String :=
  let cs := s.toList.map fun c => if c = '+' then ' ' else c
  (decode (String.ofList (cs.takeWhile (· != '='))),
    decode (String.ofList ((cs.dropWhile (· != '=')).drop 1)))

/-- Follows the segments that stand for a place itself and for the one above it. -/
def resolve (path : List String) : List String :=
  let step (before : List String) (s : String) : List String :=
    if s = "." then before
    else if s = ".." then if before = [""] then before else before.dropLast
    else before ++ [s]
  path.foldl step []

/-- Reads a target; a path starts with a slash, written or not. -/
def ofText (s : String) : Target :=
  let cs := s.toList.takeWhile (· != '#')
  let path := String.ofList (cs.takeWhile (· != '?'))
  let path := if path.startsWith "/" then path else "/" ++ path
  let query := String.ofList ((cs.dropWhile (· != '?')).drop 1)
  { path := decode ("/".intercalate (resolve (path.splitOn "/")))
    query := ((query.splitOn "&").filter (!·.isEmpty)).map parameter }

end Target

end Rulebook.Http
