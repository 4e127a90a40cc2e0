import Rivect.Lib.Fallible

/-! # Documents

The tree that `toml_edit` hands to `src/config.rs`, and the errors the reader answers with.
-/

namespace Rivect.Config

/-- One value of a document; a float and a date are `other`. -/
inductive Item where
  | str (text : String)
  | int (value : Int)
  | bool (value : Bool)
  | other
  | array (items : List Item)
  | inline (entries : List (String × Item))
  | table (entries : List (String × Item))
  | tables (entries : List (List (String × Item)))

namespace Item

def asStr : Item → Option String
  | .str text => some text
  | _ => none

def asArray : Item → Option (List Item)
  | .array items => some items
  | _ => none

def asInlineTable : Item → Option (List (String × Item))
  | .inline entries => some entries
  | _ => none

def asTableLike : Item → Option (List (String × Item))
  | .inline entries | .table entries => some entries
  | _ => none

end Item

/-- The entry of a table under a key. -/
def entry (entries : List (String × Item)) (field : String) : Option Item :=
  (entries.find? (·.1 = field)).map Prod.snd

inductive Stage where
  | parse
  | schema
  | resolve
deriving DecidableEq

inductive ConnKind where
  | apiKey
  | local
  | subscription
deriving DecidableEq

inductive ConfigIssue where
  | configVersionNotNonNegativeInteger
  | keyNotEditable (key : String)
  | documentOnlyKey (key : String)
  | emptyKeySegment (key : String)
  | unterminatedKeyQuote (key : String)
  | unknownRootKey (key : String)
  | required (field : String)
  | unsupportedConfigVersion
  | missingConnections
  | credentialRefRequired (kind : ConnKind)
  | localCredentialsForbidden
  | unknownGroupReference (group : String)
  | unknownConnectionReference (connection : String)
  | conflictingPurposeDefinitions
  | personalNamespaceClaimed (claimed : String)
  | expectedTable (key : String)
  | expectedString (field : String)
  | unsupportedConnectionKind (kind : String)
  | inlineCredential
  | unknownKey (key : String) (known : List String)
  | groupReferenceNotString
  | poolNotArray
  | poolEntryNotString
  | eligibleNotArray
  | eligibleEntryNotString
  | fixedModelMissingConnection
  | fixedModelMissingId
  | unsupportedModelMode (mode : String)
  | fixedEffortMissingValue
  | unsupportedEffortValue (value : String)
  | unsupportedEffortMode (mode : String)
  | chainNotArray
  | chainEntryNotTable
  | fixedChainEntryMissingConnection
  | fixedChainEntryMissingModelId
  | unsupportedFallbackMode (mode : String)
  | workflowEnabledNotBoolean
  | contextAutoCompactNotBoolean
  | unsupportedDecisionMode (mode : String)
  | requiredNotResettable (key : String)
  | noRetainedDocument
  | valueTypeMismatch (key : String)
  | secretRefExpected (key : String)
  | unsupportedCredentialStore (store : String)
  | unknownProfileReference (profile : String)
  | endpointNotAllowed
deriving DecidableEq

structure ConfigError where
  stage : Stage
  key : Option String
  issue : ConfigIssue
deriving DecidableEq

namespace ConfigError

def schema (key : String) (issue : ConfigIssue) : ConfigError := ⟨.schema, some key, issue⟩

def resolve (key : String) (issue : ConfigIssue) : ConfigError := ⟨.resolve, some key, issue⟩

end ConfigError

end Rivect.Config
