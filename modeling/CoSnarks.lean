import CoSnarks.Model.Core.BTreeMap
import CoSnarks.Model.Circom.Input
import CoSnarks.Model.Circom.Merge
import CoSnarks.Model.Circom.SharedInputMerge
import CoSnarks.Model.Circom.BuildFromSources
import CoSnarks.Model.Circom.RootsOfUnity
import CoSnarks.Model.Circom.Sharing
import CoSnarks.Model.Circom.Shamir
import CoSnarks.Model.Yao.Wire
import CoSnarks.Model.Yao.Garbler
import CoSnarks.Model.Yao.Session
import CoSnarks.Model.Yao.Transcript
import CoSnarks.Soundness.InputMerge
import CoSnarks.Soundness.BuildFromSources
import CoSnarks.Soundness.Garbler
import CoSnarks.Soundness.Decoding
import CoSnarks.Soundness.RootsOfUnity
import CoSnarks.Soundness.Sharing
import CoSnarks.Soundness.Pipeline
import CoSnarks.Soundness.Shamir
import CoSnarks.Soundness.MergeFold
import CoSnarks.Soundness.FreeXor
