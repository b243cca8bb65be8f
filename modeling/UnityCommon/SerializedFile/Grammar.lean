import UnityCommon.SerializedFile.Spans
import UnityCommon.Common.Words

/-!
# The grammar of version 22 metadata

The records that metadata is made of and how each is spelled. Nothing here moves
a cursor: a record says what may stand in it, and its text is the texts of its
fields, one after the other.
-/

namespace UnityCommon.Metadata

/-- A number in the byte order of the metadata. -/
def encodeNat (endianSelector : UInt8) (width n : ℕ) : Text :=
  if endianSelector ≠ 0 then Bytes.toBE width n else Bytes.toLE width n

@[simp] theorem length_encodeNat (endianSelector : UInt8) (width n : ℕ) :
    (encodeNat endianSelector width n).length = width := by
  unfold encodeNat
  split <;> simp

theorem decodeNat_lt (endianSelector : UInt8) (bytes : Text) :
    decodeNat endianSelector bytes < 256 ^ bytes.length := by
  unfold decodeNat
  split
  · exact Bytes.ofBE_lt bytes
  · exact Bytes.ofLE_lt bytes

theorem decodeNat_encodeNat {endianSelector : UInt8} {width n : ℕ} (h : n < 256 ^ width) :
    decodeNat endianSelector (encodeNat endianSelector width n) = n := by
  unfold decodeNat encodeNat
  split
  · rw [Bytes.ofBE, Bytes.toBE, List.reverse_reverse, Bytes.ofLE_toLE h]
  · exact Bytes.ofLE_toLE h

theorem encodeNat_decodeNat {endianSelector : UInt8} {width : ℕ} {bytes : Text}
    (h : bytes.length = width) :
    encodeNat endianSelector width (decodeNat endianSelector bytes) = bytes := by
  subst h
  unfold decodeNat encodeNat
  split
  · exact Bytes.toBE_ofBE bytes
  · exact Bytes.toLE_ofLE bytes

/-- So many bytes bring a position to a multiple of four of the metadata. -/
def Aligns (position count : ℕ) : Prop :=
  count < 4 ∧ (position - v22HeaderSize + count) % 4 = 0

theorem aligns_iff {position count : ℕ} :
    Aligns position count ↔ count = metadataPadding position := by
  unfold Aligns metadataPadding
  dsimp only
  split <;> omega

/-- Records one after the other from a position on, each valid where it stands. -/
def Consecutive {α : Type} (encode : α → Text) (Valid : ℕ → α → Prop) : ℕ → List α → Prop
  | _, [] => True
  | position, a :: as =>
      Valid position a ∧ Consecutive encode Valid (position + (encode a).length) as

/-! ## Types -/

/-- What every type begins with. -/
structure TypeText where
  classIdBits : UInt32
  strippedRaw : UInt8
  scriptIndexBits : UInt16
  scriptHash : Option Text
  typeHash : Text

namespace TypeText

def encode (endianSelector : UInt8) (type : TypeText) : Text :=
  encodeNat endianSelector 4 type.classIdBits.toNat ++ [type.strippedRaw] ++
    encodeNat endianSelector 2 type.scriptIndexBits.toNat ++ type.scriptHash.getD [] ++
    type.typeHash

/-- A script hash stands where the class is a behaviour or the index is not
negative; class -1 with a negative index is no type. -/
structure Valid (type : TypeText) : Prop where
  shape : ¬ (type.classIdBits = uint32Max ∧ 0x8000 ≤ type.scriptIndexBits)
  scriptHash : type.scriptHash.isSome = true ↔
    type.classIdBits = 114 ∨ type.scriptIndexBits < 0x8000
  scriptHashSize : ∀ hash ∈ type.scriptHash, hash.length = 16
  typeHashSize : type.typeHash.length = 16

end TypeText

/-- The nodes of a tree, 32 bytes each, and its strings. -/
structure TreeText where
  nodes : Text
  strings : Text

namespace TreeText

def encode (endianSelector : UInt8) (tree : TreeText) : Text :=
  encodeNat endianSelector 4 (tree.nodes.length / 32) ++
    encodeNat endianSelector 4 tree.strings.length ++ tree.nodes ++ tree.strings

structure Valid (tree : TreeText) : Prop where
  nodes : ∃ count, count ≠ 0 ∧ count < 2 ^ 32 ∧ tree.nodes.length = count * 32
  strings : tree.strings.length < 2 ^ 32

end TreeText

/-- The words behind an ordinary tree. -/
def encodeDependencies (endianSelector : UInt8) (words : Text) : Text :=
  encodeNat endianSelector 4 (words.length / 4) ++ words

def ValidDependencies (words : Text) : Prop :=
  ∃ count, count ≤ int32Max ∧ words.length = count * 4

/-- A text with its terminator. -/
def encodeString (text : Text) : Text := text ++ [0]

def ValidString (text : Text) : Prop := ∀ byte ∈ text, byte ≠ 0

/-- A type of the directory: a tree comes with its dependencies. -/
structure OrdinaryText where
  type : TypeText
  body : Option (TreeText × Text)

namespace OrdinaryText

def encodeBody (endianSelector : UInt8) : Option (TreeText × Text) → Text
  | none => []
  | some (tree, words) => tree.encode endianSelector ++ encodeDependencies endianSelector words

def encode (endianSelector : UInt8) (row : OrdinaryText) : Text :=
  row.type.encode endianSelector ++ encodeBody endianSelector row.body

structure Valid (hasTree : Bool) (row : OrdinaryText) : Prop where
  type : row.type.Valid
  present : row.body.isSome = hasTree
  body : ∀ tree words, row.body = some (tree, words) → tree.Valid ∧ ValidDependencies words

end OrdinaryText

/-- What identifies a reference type. -/
structure NamesText where
  className : Text
  namespaceName : Text
  assemblyName : Text

namespace NamesText

def encode (names : NamesText) : Text :=
  encodeString names.className ++ encodeString names.namespaceName ++
    encodeString names.assemblyName

structure Valid (names : NamesText) : Prop where
  className : ValidString names.className
  namespaceName : ValidString names.namespaceName
  assemblyName : ValidString names.assemblyName

end NamesText

/-- A reference type: a tree comes with names. -/
structure ReferenceText where
  type : TypeText
  body : Option (TreeText × NamesText)

namespace ReferenceText

def encodeBody (endianSelector : UInt8) : Option (TreeText × NamesText) → Text
  | none => []
  | some (tree, names) => tree.encode endianSelector ++ names.encode

def encode (endianSelector : UInt8) (row : ReferenceText) : Text :=
  row.type.encode endianSelector ++ encodeBody endianSelector row.body

structure Valid (hasTree : Bool) (row : ReferenceText) : Prop where
  type : row.type.Valid
  present : row.body.isSome = hasTree
  body : ∀ tree names, row.body = some (tree, names) → tree.Valid ∧ names.Valid

end ReferenceText

/-! ## The other tables -/

structure ObjectText where
  pathIdBits : UInt64
  relativeDataOffset : UInt64
  byteSize : UInt32
  typeOrdinal : UInt32

namespace ObjectText

def encode (endianSelector : UInt8) (object : ObjectText) : Text :=
  encodeNat endianSelector 8 object.pathIdBits.toNat ++
    encodeNat endianSelector 8 object.relativeDataOffset.toNat ++
    encodeNat endianSelector 4 object.byteSize.toNat ++
    encodeNat endianSelector 4 object.typeOrdinal.toNat

/-- The payload is data, and the type is there. -/
structure Valid (dataSize typeCount : ℕ) (object : ObjectText) : Prop where
  payload : object.relativeDataOffset.toNat + object.byteSize.toNat ≤ dataSize
  type : object.typeOrdinal.toNat < typeCount

end ObjectText

structure ScriptText where
  fileIndexBits : UInt32
  alignment : Text
  localIdentifierBits : UInt64

namespace ScriptText

def encode (endianSelector : UInt8) (script : ScriptText) : Text :=
  encodeNat endianSelector 4 script.fileIndexBits.toNat ++ script.alignment ++
    encodeNat endianSelector 8 script.localIdentifierBits.toNat

/-- The identifier is aligned. -/
def Valid (position : ℕ) (script : ScriptText) : Prop :=
  Aligns (position + 4) script.alignment.length

end ScriptText

structure ExternalText where
  leadingString : Text
  guid : Text
  typeBits : UInt32
  path : Text

namespace ExternalText

def encode (endianSelector : UInt8) (row : ExternalText) : Text :=
  encodeString row.leadingString ++ row.guid ++ encodeNat endianSelector 4 row.typeBits.toNat ++
    encodeString row.path

structure Valid (row : ExternalText) : Prop where
  leadingString : ValidString row.leadingString
  guidSize : row.guid.length = 16
  path : ValidString row.path

end ExternalText

/-! ## The metadata -/

/-- A table: its count and its rows. -/
def encodeTable {α : Type} (endianSelector : UInt8) (encode : α → Text) (rows : List α) : Text :=
  encodeNat endianSelector 4 rows.length ++ rows.flatMap encode

structure DirectoryText where
  types : List OrdinaryText
  objectPadding : Text
  objects : List ObjectText

namespace DirectoryText

def encode (endianSelector : UInt8) (directory : DirectoryText) : Text :=
  encodeTable endianSelector (OrdinaryText.encode endianSelector) directory.types ++
    encodeNat endianSelector 4 directory.objects.length ++ directory.objectPadding ++
    directory.objects.flatMap (ObjectText.encode endianSelector)

/-- Objects are aligned, if there are any. -/
structure Valid (endianSelector : UInt8) (hasTree : Bool) (dataSize position : ℕ)
    (directory : DirectoryText) : Prop where
  typeCount : directory.types.length ≤ int32Max
  types : ∀ row ∈ directory.types, row.Valid hasTree
  objectCount : directory.objects.length ≤ int32Max
  objects : ∀ object ∈ directory.objects, object.Valid dataSize directory.types.length
  unpadded : directory.objects = [] → directory.objectPadding = []
  padded : directory.objects ≠ [] →
    Aligns (position + (encodeTable endianSelector (OrdinaryText.encode endianSelector)
      directory.types).length + 4) directory.objectPadding.length

end DirectoryText

structure TailText where
  scripts : List ScriptText
  externals : List ExternalText
  referenceTypes : List ReferenceText
  userInformation : Text

namespace TailText

def encode (endianSelector : UInt8) (tail : TailText) : Text :=
  encodeTable endianSelector (ScriptText.encode endianSelector) tail.scripts ++
    encodeTable endianSelector (ExternalText.encode endianSelector) tail.externals ++
    encodeTable endianSelector (ReferenceText.encode endianSelector) tail.referenceTypes ++
    encodeString tail.userInformation

structure Valid (endianSelector : UInt8) (hasTree : Bool) (position : ℕ) (tail : TailText) :
    Prop where
  scriptCount : tail.scripts.length ≤ int32Max
  scripts : Consecutive (ScriptText.encode endianSelector) ScriptText.Valid (position + 4)
    tail.scripts
  externalCount : tail.externals.length ≤ int32Max
  externals : ∀ row ∈ tail.externals, row.Valid
  referenceTypeCount : tail.referenceTypes.length ≤ int32Max
  referenceTypes : ∀ row ∈ tail.referenceTypes, row.Valid hasTree
  userInformation : ValidString tail.userInformation

end TailText

/-- The metadata of a file. -/
structure MetadataText where
  engineVersion : DirectoryEngineVersion
  targetPlatform : Text
  hasTree : Bool
  directory : DirectoryText
  tail : TailText

namespace MetadataText

def encodePrefix (metadata : MetadataText) : Text :=
  encodeString metadata.engineVersion.expectedVersion ++ metadata.targetPlatform ++
    [if metadata.hasTree then 1 else 0]

def encode (endianSelector : UInt8) (metadata : MetadataText) : Text :=
  metadata.encodePrefix ++ metadata.directory.encode endianSelector ++
    metadata.tail.encode endianSelector

/-- Valid behind the header of a file with so much data. -/
structure Valid (endianSelector : UInt8) (dataSize : ℕ) (metadata : MetadataText) : Prop where
  targetPlatformSize : metadata.targetPlatform.length = 4
  directory : metadata.directory.Valid endianSelector metadata.hasTree dataSize
    (v22HeaderSize + metadata.encodePrefix.length)
  tail : metadata.tail.Valid endianSelector metadata.hasTree
    (v22HeaderSize + metadata.encodePrefix.length +
      (metadata.directory.encode endianSelector).length)

end MetadataText

end UnityCommon.Metadata
