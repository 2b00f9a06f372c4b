import Bindery.Target.Core
import Bindery.Target.Cpp
import Bindery.Target.Dotnet
import Bindery.Target.Mock
import Bindery.Target.Python

/-!
# Targets

The libraries that are kept in step with an interface, in the order in which they are brought up to
date.
-/

namespace Bindery

/-- A library that is kept in step with an interface. -/
inductive Target where
  | core
  | mock
  | cpp
  | dotnet
  | python
deriving DecidableEq, Repr

namespace Target

def all : List Target := [core, mock, cpp, dotnet, python]

def emitter : Target → Emitter
  | core => CoreLibrary.emitter
  | mock => MockLibrary.emitter
  | cpp => CppBindings.emitter
  | dotnet => DotnetBindings.emitter
  | python => PythonBindings.emitter

def name (target : Target) : String := target.emitter.name

def ofName? (name : String) : Option Target := all.find? fun target => target.name = name

/-- The requested targets in order and without repetition; a request that names none selects all. -/
def select (requested : List Target) : List Target :=
  all.filter fun target => requested.isEmpty || requested.contains target

end Target

end Bindery
