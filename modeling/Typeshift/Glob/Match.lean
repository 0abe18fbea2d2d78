import Typeshift.Glob.Basic

/-! # Matching patterns

A pattern is matched against the bytes of a path. A token is given what has to be matched after it,
so it may take as much as it likes.

* `Glob.isMatch`: whether a pattern matches a path. -/

namespace Typeshift.Glob

/-- The byte of the separator. -/
def slash : UInt8 := 0x2f

/-- The bytes of a character. -/
def bytesOf (c : Char) : List UInt8 := (String.singleton c).toUTF8.toList

/-- What has to be matched: whether the bytes that are left are accepted. -/
abbrev Rest := List UInt8 → Bool

/-- Take some given bytes. -/
def takeBytes (k : Rest) : List UInt8 → Rest
  | [], bs => k bs
  | _ :: _, [] => false
  | c :: cs, b :: bs => b == c && takeBytes k cs bs

/-- Take one byte that satisfies a test. -/
def takeOne (p : UInt8 → Bool) (k : Rest) : Rest
  | [] => false
  | b :: bs => p b && k bs

/-- Take any number of bytes that satisfy a test. -/
def takeMany (p : UInt8 → Bool) (k : Rest) : Rest
  | [] => k []
  | b :: bs => k (b :: bs) || p b && takeMany p k bs

/-- Take some bytes up to and including a separator. -/
def takeThroughSlash (k : Rest) : Rest
  | [] => false
  | b :: bs => b == slash && k bs || takeThroughSlash k bs

/-- Whether a byte is in a range between two characters. Of a character of several bytes the inner
ones stand for themselves. -/
def inRange (b : UInt8) (range : Char × Char) : Bool :=
  let low := bytesOf range.1
  let high := bytesOf range.2
  if range.1 = range.2 then low.contains b
  else low.dropLast.contains b || high.tail.contains b ||
    match low.getLast?, high.head? with
    | some l, some h => l ≤ b && b ≤ h
    | _, _ => false

mutual

/-- Whether a token takes nothing: a group all of whose branches are empty. -/
def Token.isVoid : Token → Bool
  | .alternatives branches => areVoid branches
  | _ => false

/-- Whether tokens take nothing. -/
def isVoid : List Token → Bool
  | [] => true
  | t :: ts => t.isVoid && isVoid ts

/-- Whether all branches take nothing. -/
def areVoid : List (List Token) → Bool
  | [] => true
  | ts :: rest => isVoid ts && areVoid rest

end

mutual

/-- Match a token, and then what has to be matched after it. -/
def Token.run : Token → Rest → Rest
  | .literal c, k => takeBytes k (bytesOf c)
  | .any, k => takeOne (· != slash) k
  | .star, k => takeMany (· != slash) k
  | .directoriesBefore, k => fun bs => k bs || takeThroughSlash k bs
  | .allBelow, k => takeOne (· == slash) (takeMany (fun _ => true) k)
  | .directoriesBetween, k => takeOne (· == slash) fun bs => k bs || takeThroughSlash k bs
  | .oneOf negated ranges, k => takeOne (fun b => ranges.any (inRange b) != negated) k
  | .alternatives branches, k => if areVoid branches then k else runAny branches k

/-- Match tokens one after the other. -/
def runAll : List Token → Rest → Rest
  | [], k => k
  | t :: ts, k => t.run (runAll ts k)

/-- Match one of some branches; empty ones do not count. -/
def runAny : List (List Token) → Rest → Rest
  | [], _ => fun _ => false
  | ts :: rest, k => fun bs => !isVoid ts && runAll ts k bs || runAny rest k bs

end

/-- **Whether a pattern matches a path.** The pattern `**` matches everything. -/
def isMatch (tokens : List Token) (path : String) : Bool :=
  match tokens with
  | [.directoriesBefore] => true
  | tokens => runAll tokens List.isEmpty path.toUTF8.toList

end Typeshift.Glob
