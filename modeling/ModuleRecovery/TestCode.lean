import ModuleRecovery.ClassModel
import ModuleRecovery.Text.Lowercase

/-!
# Recognising test code

Whether a class is test code is judged by names alone: by the segments of its
package, and for Java also by the end of the class name.  Python trusts module
paths only, since class names that begin or end in "test" occur in production
code there.
-/

namespace ModuleRecovery

/-- A naming convention for test code. -/
inductive TestConvention where
  | java
  | python
  | universal
  deriving DecidableEq, Repr

namespace TestConvention

open Text

def isSeparator (c : Char) : Bool :=
  c == '.' || c == '/'

/-- The pieces of a text between separators, empty ones included. -/
def pieces : List Char → List (List Char)
  | [] => [[]]
  | c :: rest =>
    if isSeparator c then [] :: pieces rest
    else
      match pieces rest with
      | [] => [[c]]
      | piece :: more => (c :: piece) :: more

def segments (package : String) : List String :=
  ((pieces package.toList).filter (!·.isEmpty)).map String.ofList

/-- The name ends in `IT` after a lowercase letter, so that words in capitals such
as `AUDIT` are not meant. -/
def isIntegrationTestName (name : String) : Bool :=
  match name.toList.reverse with
  | 'T' :: 'I' :: c :: _ => isLowercase c
  | _ => false

def endsIn (ending : String) (name : String) : Bool :=
  ending.toList.isSuffixOf name.toList

def hasJavaTestName (name : String) : Bool :=
  endsIn "Test" name || endsIn "Tests" name || endsIn "TestCase" name ||
    isIntegrationTestName name

def isJavaTestSegment (segment : String) : Bool :=
  segment == "test"

def isPythonTestSegment (segment : String) : Bool :=
  segment == "tests" || segment == "test" ||
    "test_".toList.isPrefixOf segment.toList

/-- A class of the given name in the given package is test code. -/
def covers (convention : TestConvention) (name package : String) : Bool :=
  match convention with
  | .java => java name package
  | .python => python package
  | .universal => java name package || python package
where
  java (name package : String) : Bool :=
    (segments package).any isJavaTestSegment || hasJavaTestName name
  python (package : String) : Bool :=
    (segments package).any isPythonTestSegment

end TestConvention

/-- The class is test code by some convention. -/
def ClassUnit.isTest (unit : ClassUnit) : Bool :=
  TestConvention.universal.covers unit.name unit.package

end ModuleRecovery
