import ProceduralScene.Build.Blueprint
import ProceduralScene.Build.Parameter
import ProceduralScene.Build.Place
import ProceduralScene.Build.Run
import ProceduralScene.Build.Session
import ProceduralScene.Build.Walk
import ProceduralScene.CommandLine.Arguments
import ProceduralScene.CommandLine.Help
import ProceduralScene.CommandLine.Run
import ProceduralScene.CommandLine.Suggestion
import ProceduralScene.Context
import ProceduralScene.Diagnostic.Log
import ProceduralScene.Export.File
import ProceduralScene.Export.Gltf
import ProceduralScene.Export.Manifest
import ProceduralScene.Export.Record
import ProceduralScene.Export.Sha256
import ProceduralScene.Expression.Conditional
import ProceduralScene.Expression.Evaluator
import ProceduralScene.Expression.Library
import ProceduralScene.Expression.Reduced
import ProceduralScene.Expression.Reduction
import ProceduralScene.Expression.Scan
import ProceduralScene.Expression.Token
import ProceduralScene.Factory.Stock
import ProceduralScene.Factory.Table
import ProceduralScene.Failure
import ProceduralScene.Main
import ProceduralScene.Number.Binary
import ProceduralScene.Number.Complex
import ProceduralScene.Number.Decimal
import ProceduralScene.Number.RandomStream
import ProceduralScene.Path2D.Descriptor
import ProceduralScene.Path2D.Generator
import ProceduralScene.Path2D.Table
import ProceduralScene.Proofs.AlikeReaders
import ProceduralScene.Proofs.ArgumentLists
import ProceduralScene.Proofs.ArgumentNesting
import ProceduralScene.Proofs.Blueprints
import ProceduralScene.Proofs.Builders
import ProceduralScene.Proofs.Built
import ProceduralScene.Proofs.CallScan
import ProceduralScene.Proofs.CanonicalText
import ProceduralScene.Proofs.CanonicalWords
import ProceduralScene.Proofs.CapturedLayers
import ProceduralScene.Proofs.CharClasses
import ProceduralScene.Proofs.Coherence
import ProceduralScene.Proofs.ConditionalCalls
import ProceduralScene.Proofs.ConditionalFrames
import ProceduralScene.Proofs.ConditionalNesting
import ProceduralScene.Proofs.ConditionalPasses
import ProceduralScene.Proofs.ConditionalValue
import ProceduralScene.Proofs.Consistency
import ProceduralScene.Proofs.DeepCopy
import ProceduralScene.Proofs.Depiction
import ProceduralScene.Proofs.Dialects
import ProceduralScene.Proofs.Dispatch
import ProceduralScene.Proofs.DollarMarks
import ProceduralScene.Proofs.Dressing
import ProceduralScene.Proofs.EarlierResults
import ProceduralScene.Proofs.EnclosedTexts
import ProceduralScene.Proofs.Eviction
import ProceduralScene.Proofs.FloatArithmetic
import ProceduralScene.Proofs.Forming
import ProceduralScene.Proofs.Furnishing
import ProceduralScene.Proofs.Gathering
import ProceduralScene.Proofs.GivenNames
import ProceduralScene.Proofs.Grammar
import ProceduralScene.Proofs.GrammarReaders
import ProceduralScene.Proofs.InstancePlaces
import ProceduralScene.Proofs.IntegerRemainder
import ProceduralScene.Proofs.KochCurve
import ProceduralScene.Proofs.LayeredNames
import ProceduralScene.Proofs.Leaves
import ProceduralScene.Proofs.Lexemes
import ProceduralScene.Proofs.Links
import ProceduralScene.Proofs.LiteralTexts
import ProceduralScene.Proofs.LoneVariable
import ProceduralScene.Proofs.LoopRange
import ProceduralScene.Proofs.MaterialRecall
import ProceduralScene.Proofs.Memo
import ProceduralScene.Proofs.Mirroring
import ProceduralScene.Proofs.MissingVariables
import ProceduralScene.Proofs.NearestNumber
import ProceduralScene.Proofs.NearestValue
import ProceduralScene.Proofs.Oblivious
import ProceduralScene.Proofs.Outcome
import ProceduralScene.Proofs.Outline
import ProceduralScene.Proofs.Parameters
import ProceduralScene.Proofs.Picture
import ProceduralScene.Proofs.PieceArguments
import ProceduralScene.Proofs.PieceCalls
import ProceduralScene.Proofs.PieceFunctions
import ProceduralScene.Proofs.PieceLiterals
import ProceduralScene.Proofs.PieceReading
import ProceduralScene.Proofs.PieceReduction
import ProceduralScene.Proofs.PieceScans
import ProceduralScene.Proofs.PieceTexts
import ProceduralScene.Proofs.PieceTokens
import ProceduralScene.Proofs.PieceTrims
import ProceduralScene.Proofs.PieceValue
import ProceduralScene.Proofs.PieceVariables
import ProceduralScene.Proofs.PieceWords
import ProceduralScene.Proofs.Pieces
import ProceduralScene.Proofs.Placeable
import ProceduralScene.Proofs.PlacedAgain
import ProceduralScene.Proofs.Placing
import ProceduralScene.Proofs.PlainArithmetic
import ProceduralScene.Proofs.PlainExpression
import ProceduralScene.Proofs.PlainFunction
import ProceduralScene.Proofs.PlainPlacement
import ProceduralScene.Proofs.PlainSegments
import ProceduralScene.Proofs.PlainValue
import ProceduralScene.Proofs.PointLists
import ProceduralScene.Proofs.QuotedSpans
import ProceduralScene.Proofs.ReadBack
import ProceduralScene.Proofs.Readers
import ProceduralScene.Proofs.Recoveries
import ProceduralScene.Proofs.ReducedLanguage
import ProceduralScene.Proofs.Regeneration
import ProceduralScene.Proofs.RegistryHistory
import ProceduralScene.Proofs.Release
import ProceduralScene.Proofs.Resolution
import ProceduralScene.Proofs.ResolvedParameters
import ProceduralScene.Proofs.RewritingDepth
import ProceduralScene.Proofs.RoundedMantissa
import ProceduralScene.Proofs.RoundingInterval
import ProceduralScene.Proofs.Runs
import ProceduralScene.Proofs.SameFields
import ProceduralScene.Proofs.SceneDocument
import ProceduralScene.Proofs.SceneHistory
import ProceduralScene.Proofs.SceneSteps
import ProceduralScene.Proofs.ScopeHistory
import ProceduralScene.Proofs.SettledSpelling
import ProceduralScene.Proofs.Settling
import ProceduralScene.Proofs.Sharing
import ProceduralScene.Proofs.ShortestDigits
import ProceduralScene.Proofs.Showing
import ProceduralScene.Proofs.ShownNumber
import ProceduralScene.Proofs.SpelledValues
import ProceduralScene.Proofs.Spelling
import ProceduralScene.Proofs.SpellingTurns
import ProceduralScene.Proofs.StackedPrefixes
import ProceduralScene.Proofs.StoredResults
import ProceduralScene.Proofs.Subtree
import ProceduralScene.Proofs.SubtreeFrame
import ProceduralScene.Proofs.TokenSeams
import ProceduralScene.Proofs.WalkCount
import ProceduralScene.Proofs.WalkSteps
import ProceduralScene.Proofs.Walked
import ProceduralScene.Proofs.Walks
import ProceduralScene.Proofs.WordCounts
import ProceduralScene.Proofs.Written
import ProceduralScene.Scene.Basic
import ProceduralScene.Scene.Describe
import ProceduralScene.Scene.MaterialTable
import ProceduralScene.Scene.Node
import ProceduralScene.Scene.Placement
import ProceduralScene.Scene.Polyline
import ProceduralScene.Scene.Registry
import ProceduralScene.Scene.Resolve
import ProceduralScene.Scene.Store
import ProceduralScene.Schema.Action
import ProceduralScene.Schema.Basic
import ProceduralScene.Schema.Load
import ProceduralScene.Schema.Normalize
import ProceduralScene.Schema.Reading
import ProceduralScene.Schema.Spelling
import ProceduralScene.Text.CharClass
import ProceduralScene.Text.Order
import ProceduralScene.Text.Quoted
import ProceduralScene.Value.Arithmetic
import ProceduralScene.Value.Basic
import ProceduralScene.Value.Convert
import ProceduralScene.Value.Display
import ProceduralScene.Value.Json
import ProceduralScene.Value.JsonText
import ProceduralScene.Value.Order
import ProceduralScene.Yaml.Cursor
import ProceduralScene.Yaml.Document
import ProceduralScene.Yaml.Node
import ProceduralScene.Yaml.Plain
import ProceduralScene.Yaml.Scalar
import ProceduralScene.Yaml.Token
