import JvmTypes.AccessFlags
import JvmTypes.Annotation
import JvmTypes.Descriptor
import JvmTypes.Signature.Reader
/-!
# Declaration stubs

Declarations as a type source hands them out: names, descriptors and the unparsed text of
signatures.
-/
namespace JvmTypes

structure ParameterStub where
  name : Option String
  flags : Option AccessFlags

structure FieldStub where
  name : String
  descriptor : String
  signature : Option String
  flags : AccessFlags
  annotations : List Annotation

structure MethodStub where
  name : String
  descriptor : String
  signature : Option String
  flags : AccessFlags
  /-- Internal names of the declared exceptions. -/
  exceptions : List String
  annotations : List Annotation
  defaultValue : Option ElementValue
  /-- Recorded parameters; empty when the declaration records none. -/
  parameters : List ParameterStub

structure ClassStub where
  name : String
  flags : AccessFlags
  superclass : Option String
  interfaces : List String
  signature : Option String
  /-- Binary name of the lexically enclosing class of a member class. -/
  declaring : Option String
  annotations : List Annotation
  fields : List FieldStub
  methods : List MethodStub

def FieldStub.type (f : FieldStub) : Except Descriptor.Invalid FieldType :=
  FieldType.parse f.descriptor

def FieldStub.parsedSignature (f : FieldStub) :
    Option (Except Signature.Invalid Signature.TypeTree) :=
  f.signature.map Signature.TypeTree.parse

def MethodStub.type (m : MethodStub) : Except Descriptor.Invalid MethodDescriptor :=
  MethodDescriptor.parse m.descriptor

def MethodStub.parsedSignature (m : MethodStub) :
    Option (Except Signature.Invalid Signature.MethodSignature) :=
  m.signature.map Signature.MethodSignature.parse

def ClassStub.parsedSignature (c : ClassStub) :
    Option (Except Signature.Invalid Signature.ClassSignature) :=
  c.signature.map Signature.ClassSignature.parse

end JvmTypes
